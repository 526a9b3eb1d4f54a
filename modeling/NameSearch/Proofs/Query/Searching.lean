import NameSearch.Proofs.Query.Sites
import NameSearch.Proofs.Query.TreeEvaluation
import NameSearch.Proofs.Search.Probing

/-!
# Terms that an evaluation searches for

At every place of a query the state of the walk and what is still to come of the open groups
determine which terms will be searched for.  What a step asks, followed by what is asked for the
terms to come behind it, is what is asked for the terms to come in front of it.
-/

namespace NameSearch

namespace Outcome

/-- The terms that are searched for in the rest `group` of a group that has come to an outcome. -/
def searched (contains : Token → Bool → Bool) (outcome : Outcome) (group : Group) :
    List (Bool × Token) :=
  match outcome with
  | .settled => []
  | .undetermined => Group.searched contains group
  | .failed =>
    Branch.searched contains true (group.headD []) ++ Group.searched contains group.tail
  | .holding =>
    Branch.searched contains false (group.headD [])
      ++ if (group.headD []).all (Item.holds contains) then []
        else Group.searched contains group.tail

variable (contains : Token → Bool → Bool)

@[simp]
theorem searched_end (outcome : Outcome) : outcome.searched contains [[]] = [] := by
  cases outcome <;> rfl

/-- An item in front of the rest is searched, unless the group is settled, and then added to the
open branch. -/
@[simp]
theorem searched_addItem (outcome : Outcome) (item : Item) (group : Group) :
    outcome.searched contains (group.addItem item) =
      (if outcome = .settled then [] else item.searched contains (decide (outcome = .failed)))
        ++ (outcome.conjoin (item.holds contains)).searched contains group := by
  cases group <;> cases outcome <;> cases value : item.holds contains <;>
    simp [searched, conjoin, Group.addItem, Group.searched, Branch.searched, Branch.holds, value]

theorem searched_addBranch (outcome : Outcome) (group : Group) :
    outcome.searched contains ([] :: group) = outcome.branch.searched contains group := by
  cases outcome <;> simp [searched, branch, Group.searched, Branch.searched, Branch.holds]

end Outcome

namespace Walk

/-- The terms that will be searched for from a level and the frames around it, when `rest` is still
to come of the open groups. -/
def upcoming (contains : Token → Bool → Bool) : Level → List Frame → Rest → List (Bool × Token)
  | level, [], rest => level.outcome.searched contains rest.inner
  | level, frame :: frames, rest =>
    let value := level.outcome.resume contains rest.inner
    level.outcome.searched contains rest.inner
      ++ upcoming contains (if frame.isIgnored then frame.outer else frame.outer.add value) frames
        rest.leave

variable {contains : Token → Bool → Bool}

theorem upcoming_eq_append {level other : Level} {rest rest' : Rest} {front : List (Bool × Token)}
    (value : level.outcome.resume contains rest.inner = other.outcome.resume contains rest'.inner)
    (behind : rest.leave = rest'.leave)
    (here : level.outcome.searched contains rest.inner =
      front ++ other.outcome.searched contains rest'.inner) (frames : List Frame) :
    upcoming contains level frames rest = front ++ upcoming contains other frames rest' := by
  cases frames <;> simp [upcoming, value, behind, here]

theorem upcoming_congr {level other : Level} {rest rest' : Rest}
    (value : level.outcome.resume contains rest.inner = other.outcome.resume contains rest'.inner)
    (behind : rest.leave = rest'.leave)
    (here : level.outcome.searched contains rest.inner =
      other.outcome.searched contains rest'.inner) (frames : List Frame) :
    upcoming contains level frames rest = upcoming contains other frames rest' := by
  have joined : upcoming contains level frames rest =
      [] ++ upcoming contains other frames rest' := upcoming_eq_append value behind here frames
  exact joined

theorem upcoming_end (level : Level) (frames : List Frame) :
    upcoming contains level frames {} = [] := by
  induction frames generalizing level with
  | nil => exact Outcome.searched_end contains level.outcome
  | cons frame frames induction =>
      rw [upcoming, Rest.leave_empty, induction, List.append_nil]
      exact Outcome.searched_end contains level.outcome

/-- The questions that a lookup puts for some terms. -/
def asked (look : Lookup) (list : List (Bool × Token)) : List Probe :=
  list.flatMap fun (negated, token) => (look token negated).probes

variable {look : Lookup}
  (answers : ∀ token negated, (look token negated).found = contains token negated)

include answers in
theorem asked_meet {walk : Walk} {negated : Bool} (agrees : Agrees walk.level negated)
    (token : Token) (rest : Rest) :
    asked look (upcoming contains walk.level walk.frames
        (rest.addItem (.term negated token))) =
      (walk.meet look token).2
        ++ asked look (upcoming contains (walk.meet look token).1.level walk.frames rest) := by
  have met : upcoming contains walk.level walk.frames (rest.addItem (.term negated token)) =
      (if walk.level.outcome = .settled then [] else [(negated, token)]) ++
        upcoming contains (walk.meet look token).1.level walk.frames rest := by
    apply upcoming_eq_append
    · exact (resume_meet answers agrees token rest.inner).symm
    · rfl
    · rw [Rest.addItem, Outcome.searched_addItem, meet]
      split
      · next settled =>
          rw [if_pos (by simpa [Level.isSettled] using settled), settled]
          rfl
      · next unsettled =>
          rw [if_neg (by simpa [Level.isSettled] using unsettled)]
          simp [Level.add, answers, agrees.resolve_left unsettled, Item.holds, Item.searched]
  rw [met, meet]
  split
  · next settled =>
      rw [if_pos (by simpa [Level.isSettled] using settled)]
      rfl
  · next unsettled =>
      rw [if_neg (by simpa [Level.isSettled] using unsettled), agrees.resolve_left unsettled]
      simp [asked]

theorem upcoming_openGroup {walk : Walk} {negated : Bool} (agrees : Agrees walk.level negated)
    (rest : Rest) :
    upcoming contains walk.level walk.frames (rest.wrap negated) =
      upcoming contains walk.openGroup.level walk.openGroup.frames rest := by
  rw [openGroup, upcoming]
  apply upcoming_eq_append
  · rw [Rest.wrap, Rest.addItem, ← resume_openGroup agrees]
    cases walk.level.ignoresGroup <;> rfl
  · rfl
  · rw [Rest.wrap, Rest.addItem, Outcome.searched_addItem, Item.searched]
    cases ignores : walk.level.ignoresGroup with
    | true =>
        rw [Level.conjoin_of_ignoresGroup ignores]
        rcases (Level.ignoresGroup_iff walk.level).mp ignores with settled | ⟨failed, plain⟩
        · simp [settled, Outcome.searched, Level.skipped]
        · have same : walk.level.negated = negated := agrees.resolve_left (by simp [failed])
          simp [failed, ← same, plain, Outcome.searched, Level.skipped]
    | false =>
        have unsettled := Level.outcome_ne_settled ignores
        have same : walk.level.negated = negated := agrees.resolve_left unsettled
        have entered : ¬(walk.level.outcome = .failed ∧ negated = false) := by
          rintro ⟨failed, plain⟩
          simp [Level.ignoresGroup, failed, same, plain] at ignores
        rw [if_neg unsettled, if_neg (by simpa using entered)]
        simp [Level.add, Outcome.searched, Outcome.resume, Item.holds, same]

include answers in
/-- What a step asks and what is asked for the terms behind it is what is asked for the terms in
front of it. -/
theorem asked_step {walk : Walk} {negated : Bool} (agrees : Agrees walk.level negated)
    (token : Token) (tokens : List Token) :
    asked look (upcoming contains walk.level walk.frames
        (Rest.ofTokens walk.frames.length negated (token :: tokens))) =
      (walk.step look token).2
        ++ asked look (upcoming contains (walk.step look token).1.level
          (walk.step look token).1.frames
          (Rest.ofTokens (walk.step look token).1.frames.length (negatedBehind token negated)
            tokens)) := by
  rw [negatedBehind]
  cases role : token.role with
  | idle => simp [role]
  | keyword keyword =>
      rw [step_keyword role, List.nil_append]
      congr 1
      cases keyword with
      | and => simp [role, combine]
      | or =>
          rw [Rest.ofTokens_or role]
          apply upcoming_congr
          · exact Outcome.resume_addBranch ..
          · rfl
          · exact Outcome.searched_addBranch ..
      | not =>
          rw [Rest.ofTokens_not role]
          apply upcoming_congr
          · simp [combine]
          · rfl
          · simp [combine]
  | opening => simp [role, upcoming_openGroup agrees]
  | term => simp [role, asked_meet answers agrees]
  | closing =>
      cases opened : walk.frames with
      | nil =>
          have met := asked_meet answers agrees token (Rest.ofTokens 0 false tokens)
          rw [opened] at met
          simp [role, opened, met]
      | cons frame frames =>
          rw [step_closing role opened]
          simp [role, upcoming, Frame.close]

include answers in
theorem probes_run {walk : Walk} {negated : Bool} (rightly : walk.IgnoresRightly)
    (agrees : Agrees walk.level negated) (tokens : List Token) :
    (walk.run look tokens).2 =
      asked look (upcoming contains walk.level walk.frames
        (Rest.ofTokens walk.frames.length negated tokens)) := by
  induction tokens generalizing walk negated with
  | nil =>
      rw [Rest.ofTokens, upcoming_end]
      rfl
  | cons token tokens induction =>
      have later := induction (ignoresRightly_step look rightly token)
        (agrees_step look rightly agrees token)
      rw [asked_step answers agrees token tokens, run, ← later]

end Walk

/-- An evaluation asks for the terms of its query that are searched for, in order. -/
theorem probes_eq_asked (candidates : List Bytes) (given : Option Comparison)
    (tokens : List Token) :
    (evaluate candidates given tokens).probes =
      Walk.asked (lookup candidates given)
        ((Group.ofTokens tokens).searched (contains candidates given)) := by
  have rightly : ({} : Walk).IgnoresRightly := fun frame member => nomatch member
  exact Walk.probes_run (found_lookup candidates given) rightly (.inr rfl) tokens

private theorem flatMap_ite {α β : Type} (keep : α → Bool) (part : α → List β) (list : List α) :
    (list.flatMap fun element => if keep element then part element else []) =
      (list.filter keep).flatMap part := by
  induction list with
  | nil => rfl
  | cons first later induction => cases kept : keep first <;> simp [kept, induction]

/-- The questions put to a given comparison are those for the terms that are searched for and
neither directly negated nor quoted words, in the order of the tokens. -/
theorem probes_evaluate (candidates : List Bytes) (comparison : Comparison)
    (tokens : List Token) :
    let sites := (Group.ofTokens tokens).sites
    let contains := contains candidates (some comparison)
    sites.map Site.token = terms 0 tokens ∧
      (evaluate candidates (some comparison) tokens).probes =
        (sites.filter fun site => site.isSearched contains && !site.negated
            && !(Pattern.ofToken site.token).isQuotedWord).flatMap fun site =>
          (Pattern.ofToken site.token).probes comparison candidates := by
  intro sites contains
  constructor
  · exact map_token_sites_ofTokens tokens
  · rw [probes_eq_asked, ← Group.searchedAt_sites, Walk.asked, searchedAt, List.flatMap_map]
    simp only [Site.signed, probes_lookup, flatMap_ite, List.filter_filter]
    apply congrArg fun keep => (sites.filter keep).flatMap _
    funext site
    rw [Bool.and_comm, ← Bool.and_assoc]

end NameSearch
