import NameSearch.CommandLine.Arguments
import NameSearch.Proofs.Bytes.Stopping

/-!
# Arguments with a query in front

Arguments that ask for queries ask for the answer to one query when that query is put in front of
them, and for nothing else besides.  Behind it they are read in the same way: a draft that has a
query is treated like one that has none, as long as no other query is given.
-/

namespace NameSearch
namespace CommandLine

/-- The argument that gives a query. -/
def queryArgument (query : String) : String := "--query=" ++ query

/-! ## Drafts -/

namespace Draft

/-- A draft to which a query was given before anything else. -/
def withQuery (query : String) (draft : Draft) : Draft :=
  { draft with values := draft.values ++ [(.query, query)] }

/-- Whether no query has been given. -/
def LacksQuery (draft : Draft) : Prop := draft.value? .query = none

/-- What a step makes of a draft without a query, it makes of the draft with one, and it takes no
query away.  The results are those of the step on the draft without and with the query. -/
def Follows (query : String) (draft : Draft) (plain asked : Except Refusal Draft) : Prop :=
  ∀ next, plain = .ok next → next.LacksQuery →
    draft.LacksQuery ∧ asked = .ok (next.withQuery query)

@[simp]
theorem isOn_withQuery (query : String) (draft : Draft) (switch : Switch) :
    (draft.withQuery query).isOn switch = draft.isOn switch := rfl

@[simp]
theorem input_withQuery (query : String) (draft : Draft) :
    (draft.withQuery query).input = draft.input := rfl

theorem value?_withQuery (query : String) (draft : Draft) (parameter : Parameter) :
    (draft.withQuery query).value? parameter =
      (draft.value? parameter).or (if parameter = .query then some query else none) := by
  rw [value?, withQuery, List.lookup_append, ← value?]
  cases parameter <;> rfl

@[simp]
theorem value?_withQuery_of_ne (query : String) (draft : Draft) {parameter : Parameter}
    (other : parameter ≠ .query) :
    (draft.withQuery query).value? parameter = draft.value? parameter := by
  rw [value?_withQuery, if_neg other, Option.or_none]

variable (query : String) (draft : Draft)

theorem follows_turnOn (switch : Switch) :
    Follows query draft (draft.turnOn switch) ((draft.withQuery query).turnOn switch) := by
  intro next done lacks
  rw [turnOn] at done ⊢
  rw [isOn_withQuery]
  split at done
  · cases done
  · next off =>
      cases done
      exact ⟨lacks, if_neg off⟩

theorem follows_place (path : String) :
    Follows query draft (draft.place path) ((draft.withQuery query).place path) := by
  intro next done lacks
  rw [place] at done ⊢
  rw [input_withQuery]
  split at done
  · cases done
  · next free =>
      split at done
      · cases done
      · next filled =>
          cases done
          refine ⟨lacks, ?_⟩
          rw [if_neg free, if_neg filled]
          rfl

theorem follows_foldlM_place (paths : List String) :
    Follows query draft (paths.foldlM place draft) (paths.foldlM place (draft.withQuery query)) := by
  induction paths generalizing draft with
  | nil =>
      intro next done lacks
      cases done
      exact ⟨lacks, rfl⟩
  | cons path later induction =>
      intro next done lacks
      rw [List.foldlM_cons] at done ⊢
      cases placed : draft.place path with
      | error refusal =>
          rw [placed] at done
          cases done
      | ok between =>
          rw [placed] at done
          obtain ⟨lacksBetween, rest⟩ := induction between next done lacks
          obtain ⟨lacksFirst, first⟩ := follows_place query draft path between placed lacksBetween
          rw [first]
          exact ⟨lacksFirst, rest⟩

theorem follows_assign (parameter : Parameter) (value : String) :
    Follows query draft (draft.assign parameter value)
      ((draft.withQuery query).assign parameter value) := by
  intro next done lacks
  rw [assign] at done ⊢
  split at done
  · cases done
  · next free =>
      split at done
      · cases done
      · next allowed =>
          cases done
          have other : parameter ≠ .query := by
            rintro rfl
            cases lacks
          have before : draft.LacksQuery := by
            rw [LacksQuery, value?, List.lookup_cons, beq_false_of_ne (Ne.symm other)] at lacks
            exact lacks
          refine ⟨before, ?_⟩
          rw [value?_withQuery_of_ne query draft other, if_neg free, if_neg allowed]
          rfl

variable {draft}

theorem command_withQuery {command : Command} (done : draft.command = .ok command)
    (unasked : command.query = none) :
    draft.LacksQuery ∧
      (draft.withQuery query).command = .ok { command with query := some query } := by
  rw [Draft.command] at done ⊢
  rw [isOn_withQuery, isOn_withQuery]
  split at done
  · cases done
  · next headed =>
      cases done
      have lacks : draft.value? .query = none := unasked
      refine ⟨lacks, ?_⟩
      rw [if_neg headed]
      simp [value?_withQuery, lacks]

theorem search_withQuery {command : Command}
    (done : draft.command.map Request.search = .ok (.search command))
    (unasked : command.query = none) :
    draft.LacksQuery ∧
      (draft.withQuery query).command.map Request.search =
        .ok (.search { command with query := some query }) := by
  cases given : draft.command with
  | error refusal =>
      rw [given] at done
      cases done
  | ok named =>
      rw [given] at done
      cases done
      obtain ⟨lacks, same⟩ := command_withQuery query given unasked
      rw [same]
      exact ⟨lacks, rfl⟩

end Draft

/-! ## Single arguments -/

namespace Progress

/-- What an argument left to be done when a query was given before. -/
def withQuery (query : String) : Progress → Progress
  | complete draft => complete (draft.withQuery query)
  | pending draft parameter => pending (draft.withQuery query) parameter
  | asked question => asked question

/-- Whether a search is still asked for and no query has been given. -/
def LacksQuery : Progress → Prop
  | complete draft => draft.LacksQuery
  | pending draft _ => draft.LacksQuery
  | asked _ => False

/-- What an argument makes of a draft without a query, it makes of the draft with one. -/
def Follows (query : String) (draft : Draft) (plain asked : Except Refusal Progress) : Prop :=
  ∀ progress, plain = .ok progress → progress.LacksQuery →
    draft.LacksQuery ∧ asked = .ok (progress.withQuery query)

variable {query : String} {draft : Draft}

theorem follows_complete {plain asked : Except Refusal Draft}
    (follows : Draft.Follows query draft plain asked) :
    Follows query draft (plain.map complete) (asked.map complete) := by
  intro progress done lacks
  cases plain with
  | error refusal => cases done
  | ok next =>
      cases done
      obtain ⟨before, rfl⟩ := follows next rfl lacks
      exact ⟨before, rfl⟩

theorem follows_pending (parameter : Parameter) :
    Follows query draft (.ok (.pending draft parameter))
      (.ok (.pending (draft.withQuery query) parameter)) := by
  intro progress done lacks
  cases done
  exact ⟨lacks, rfl⟩

theorem follows_asked (question : Question) (asked : Except Refusal Progress) :
    Follows query draft (.ok (.asked question)) asked := by
  intro progress done lacks
  cases done
  cases lacks

theorem follows_error (refusal : Refusal) (asked : Except Refusal Progress) :
    Follows query draft (.error refusal) asked := by
  intro progress done
  cases done

end Progress

section Reading

variable (query : String) (draft : Draft)

theorem follows_readLong (argument : List Char) :
    Progress.Follows query draft (readLong draft argument)
      (readLong (draft.withQuery query) argument) := by
  rw [readLong, readLong]
  cases longNames.lookup (String.ofList (argument.takeWhile (· != '='))) with
  | none => exact Progress.follows_error _ _
  | some named =>
      cases argument.dropWhile (· != '=') with
      | nil =>
          cases named with
          | switch switch => exact Progress.follows_complete (draft.follows_turnOn query switch)
          | parameter parameter => exact Progress.follows_pending parameter
          | question question => exact Progress.follows_asked question _
      | cons mark value =>
          cases named with
          | switch switch => exact Progress.follows_error _ _
          | parameter parameter =>
              exact Progress.follows_complete (draft.follows_assign query parameter _)
          | question question => exact Progress.follows_error _ _

theorem follows_readShort (argument : List Char) :
    Progress.Follows query draft (readShort draft argument)
      (readShort (draft.withQuery query) argument) := by
  induction argument generalizing draft with
  | nil =>
      intro progress done lacks
      cases done
      exact ⟨lacks, rfl⟩
  | cons name later induction =>
      rw [readShort, readShort]
      cases shortNames.lookup name with
      | none => exact Progress.follows_error _ _
      | some named =>
          cases named with
          | question question => exact Progress.follows_asked question _
          | parameter parameter =>
              dsimp only
              split
              · exact Progress.follows_pending parameter
              · exact Progress.follows_complete (draft.follows_assign query parameter _)
          | switch switch =>
              intro progress done lacks
              dsimp only at done ⊢
              split at done
              · cases done
              · next next turned =>
                  obtain ⟨between, rest⟩ := induction next progress done lacks
                  obtain ⟨before, first⟩ := draft.follows_turnOn query switch next turned between
                  rw [first]
                  exact ⟨before, rest⟩

theorem follows_readArgument (argument : String) :
    Progress.Follows query draft (readArgument draft argument)
      (readArgument (draft.withQuery query) argument) := by
  rw [readArgument, readArgument]
  split
  · exact follows_readLong query draft _
  · exact follows_readShort query draft _
  · exact Progress.follows_complete (draft.follows_place query argument)

end Reading

/-! ## All arguments -/

/-- Arguments that ask for queries are read behind a query as they are without it. -/
theorem readFrom_withQuery (query : String) {draft : Draft} {arguments : List String}
    {command : Command} (done : readFrom draft arguments = .ok (.search command))
    (unasked : command.query = none) :
    draft.LacksQuery ∧
      readFrom (draft.withQuery query) arguments =
        .ok (.search { command with query := some query }) := by
  induction draft, arguments using readFrom.induct with
  | case1 draft =>
      rw [readFrom] at done ⊢
      exact Draft.search_withQuery query done unasked
  | case2 draft later =>
      rw [readFrom, if_pos rfl] at done ⊢
      cases placed : later.foldlM Draft.place draft with
      | error refusal =>
          rw [placed] at done
          cases done
      | ok next =>
          rw [placed] at done
          obtain ⟨lacks, searched⟩ := Draft.search_withQuery query done unasked
          obtain ⟨before, first⟩ := draft.follows_foldlM_place query later next placed lacks
          rw [first]
          exact ⟨before, searched⟩
  | case3 draft argument later named refusal refused =>
      rw [readFrom, if_neg named, refused] at done
      cases done
  | case4 draft argument later named question asked =>
      rw [readFrom, if_neg named, asked] at done
      cases done
  | case5 draft argument later named next read induction =>
      rw [readFrom, if_neg named, read] at done
      obtain ⟨lacks, rest⟩ := induction done
      obtain ⟨before, first⟩ := follows_readArgument query draft argument _ read lacks
      rw [readFrom, if_neg named, first]
      exact ⟨before, rest⟩
  | case6 draft argument named next parameter read =>
      rw [readFrom, if_neg named, read] at done
      cases done
  | case7 draft argument named next parameter read value later isName =>
      rw [readFrom, if_neg named, read] at done
      dsimp only at done
      rw [if_pos isName] at done
      cases done
  | case8 draft argument named next parameter read value later isValue refusal refused =>
      rw [readFrom, if_neg named, read] at done
      dsimp only at done
      rw [if_neg isValue, refused] at done
      cases done
  | case9 draft argument named next parameter read value later isValue final assigned induction =>
      rw [readFrom, if_neg named, read] at done
      dsimp only at done
      rw [if_neg isValue, assigned] at done
      obtain ⟨lacks, rest⟩ := induction done
      obtain ⟨between, second⟩ := next.follows_assign query parameter value final assigned lacks
      obtain ⟨before, first⟩ := follows_readArgument query draft argument _ read between
      rw [readFrom, if_neg named, first]
      dsimp only [Progress.withQuery]
      rw [if_neg isValue, second]
      exact ⟨before, rest⟩

theorem readArgument_queryArgument (query : String) :
    readArgument {} (queryArgument query) = .ok (.complete (Draft.withQuery query {})) := by
  have spelled : (queryArgument query).toList = "--query=".toList ++ query.toList :=
    String.toList_append
  rw [readArgument, spelled]
  change readLong {} ("query".toList ++ '=' :: query.toList) = _
  have name : ("query".toList ++ '=' :: query.toList).takeWhile (· != '=') = "query".toList :=
    takeWhile_append_stop rfl _ _
  have value : ("query".toList ++ '=' :: query.toList).dropWhile (· != '=') =
      '=' :: query.toList :=
    dropWhile_append_stop rfl _ _
  have known : longNames.lookup (String.ofList "query".toList) = some (.parameter .query) := rfl
  rw [readLong, name, value, known]
  dsimp only
  rw [String.ofList_toList]
  rfl

/-- A query in front of arguments that ask for queries asks for its answer instead, and for nothing
else besides. -/
theorem read_queryArgument (query : String) {arguments : List String} {command : Command}
    (done : read arguments = .ok (.search command)) (unasked : command.query = none) :
    read (queryArgument query :: arguments) =
      .ok (.search { command with query := some query }) := by
  have named : queryArgument query ≠ "--" := by
    intro same
    have lengths := congrArg String.length same
    rw [queryArgument, String.length_append] at lengths
    have long : "--query=".length = 8 := rfl
    have short : "--".length = 2 := rfl
    omega
  rw [read, readFrom, if_neg named, readArgument_queryArgument]
  exact (readFrom_withQuery query done unasked).2

end CommandLine
end NameSearch
