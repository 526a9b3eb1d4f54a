import NameSearch.Proofs.Query.TreeEvaluation

/-!
# Segments that a walk passes over

A segment whose brackets are balanced never touches the groups that were open in front of it.  Where
the group around it is settled the walk goes through the segment without looking up a term: whatever
opens in it is ignored and settled in its turn, so that each closing bracket gives back the level
that its opening bracket found.  The same holds of a segment in brackets behind a failed item, unless
the brackets are negated.
-/

namespace NameSearch

/-- Whether the token opens a group or may close one. -/
def Token.isBracket (token : Token) : Bool :=
  match token.role with
  | .opening | .closing => true
  | .idle | .keyword _ | .term => false

namespace Walk

/-! ## Groups that were open before -/

/-- A run that closes no group from outside keeps all of them, and those it has opened are around it
besides. -/
theorem exists_frames_run (look : Lookup) (walk : Walk) {tokens : List Token} {depth : Nat}
    (inside : depthAfter 0 tokens = some depth) :
    ∃ opened : List Frame, opened.length = depth ∧
      (walk.run look tokens).1.frames = opened ++ walk.frames := by
  let start : Walk := { level := walk.level }
  have around : walk = start.within walk.frames walk.hasItem := rfl
  have atStart : depthAfter start.frames.length tokens = some depth := inside
  obtain ⟨same, deep⟩ := run_within look walk.frames walk.hasItem atStart
  refine ⟨(start.run look tokens).1.frames, deep, ?_⟩
  conv => lhs; rw [around, same]
  rfl

theorem frames_run_of_isBalanced (look : Lookup) (walk : Walk) {tokens : List Token}
    (balanced : IsBalanced tokens) : (walk.run look tokens).1.frames = walk.frames := by
  obtain ⟨opened, none, kept⟩ := exists_frames_run look walk balanced
  rw [kept, List.length_eq_zero_iff.mp none, List.nil_append]

/-- The groups that were open in front of a balanced segment are open all the way through it. -/
theorem frames_isSuffix_of_isPrefix (look : Lookup) (walk : Walk) {front tokens : List Token}
    (balanced : IsBalanced tokens) (part : front <+: tokens) :
    walk.frames <:+ (walk.run look front).1.frames := by
  obtain ⟨back, rfl⟩ := part
  rw [IsBalanced, depthAfter, List.foldlM_append] at balanced
  obtain ⟨depth, reached, -⟩ := Option.bind_eq_some_iff.mp balanced
  obtain ⟨opened, -, kept⟩ := exists_frames_run look walk reached
  exact ⟨opened, kept.symm⟩

/-! ## Groups that open where groups are ignored -/

/-- Open some groups, each in the one before. -/
def openGroups : Nat → Walk → Walk
  | 0, walk => walk
  | depth + 1, walk => (openGroups depth walk).openGroup

/-- The same walk, which has met an item if `met`. -/
def meeting (met : Bool) (walk : Walk) : Walk := { walk with hasItem := walk.hasItem || met }

@[simp]
theorem meeting_false (walk : Walk) : walk.meeting false = walk := by
  rw [meeting, Bool.or_false]

@[simp]
theorem meeting_meeting (walk : Walk) (met later : Bool) :
    (walk.meeting met).meeting later = walk.meeting (met || later) := by
  rw [meeting, meeting, meeting, Bool.or_assoc]

theorem openGroups_succ_meeting (depth : Nat) (met : Bool) (walk : Walk) :
    openGroups (depth + 1) (walk.meeting met) = openGroups (depth + 1) walk := by
  induction depth with
  | zero => rfl
  | succ depth induction =>
      rw [openGroups, induction]
      rfl

@[simp]
theorem openGroups_meeting (depth : Nat) (walk : Walk) :
    openGroups depth (walk.meeting true) = (openGroups depth walk).meeting true := by
  cases depth with
  | zero => rfl
  | succ depth => exact openGroups_succ_meeting depth true walk

section Ignoring

variable {look : Lookup} {walk : Walk} {token : Token}

theorem outcome_openGroup_of_ignoresGroup (ignores : walk.level.ignoresGroup = true) :
    walk.openGroup.level.outcome = .settled := by
  rw [openGroup, ignores]
  rfl

/-- A closing bracket takes back what an opening bracket did where groups are ignored. -/
theorem step_closing_openGroup (closes : token.role = .closing)
    (ignores : walk.level.ignoresGroup = true) :
    walk.openGroup.step look token = (walk.meeting true, []) := by
  rw [step_closing closes rfl, Frame.close, ignores, meeting, Bool.or_true]
  rfl

end Ignoring

/-! ## Settled groups -/

section Settled

variable {look : Lookup} {walk : Walk} {token : Token}

theorem meet_of_settled (settled : walk.level.outcome = .settled) :
    walk.meet look token = (walk, []) := by
  rw [meet, if_pos (by simp [Level.isSettled, settled])]

theorem combine_of_settled (settled : walk.level.outcome = .settled) (keyword : Keyword) :
    walk.combine keyword = walk := by
  obtain ⟨⟨outcome, negated⟩, frames, hasItem⟩ := walk
  obtain rfl : outcome = .settled := settled
  cases keyword <;> rfl

theorem ignoresGroup_of_settled (settled : walk.level.outcome = .settled) :
    walk.level.ignoresGroup = true :=
  (Level.ignoresGroup_iff walk.level).mpr (.inl settled)

theorem outcome_openGroups (settled : walk.level.outcome = .settled) (depth : Nat) :
    (openGroups depth walk).level.outcome = .settled := by
  induction depth with
  | zero => exact settled
  | succ depth induction =>
      exact outcome_openGroup_of_ignoresGroup (ignoresGroup_of_settled induction)

/-- In groups that have opened in a settled one, a token changes nothing but how many of them are
open. -/
theorem step_openGroups (settled : walk.level.outcome = .settled) {depth behind : Nat}
    (inside : token.depthBehind depth = some behind) :
    (openGroups depth walk).step look token =
      (openGroups behind (walk.meeting token.isBracket), []) := by
  have here := outcome_openGroups settled depth
  simp only [Token.depthBehind] at inside
  rw [Token.isBracket]
  cases role : token.role with
  | idle =>
      obtain rfl : depth = behind := by simpa [role] using inside
      simp [role]
  | keyword keyword =>
      obtain rfl : depth = behind := by simpa [role] using inside
      simp [role, combine_of_settled here]
  | term =>
      obtain rfl : depth = behind := by simpa [role] using inside
      simp [role, meet_of_settled here]
  | opening =>
      obtain rfl : depth + 1 = behind := by simpa [role] using inside
      rw [step_opening role, openGroups_succ_meeting, openGroups]
  | closing =>
      cases depth with
      | zero => simp [role] at inside
      | succ depth =>
          obtain rfl : depth = behind := by simpa [role] using inside
          have outer := ignoresGroup_of_settled (outcome_openGroups settled depth)
          simp [openGroups, step_closing_openGroup role outer]

/-- A settled group is gone through without looking up a term, however deep its groups are. -/
theorem run_openGroups (settled : walk.level.outcome = .settled) {tokens : List Token}
    {depth behind : Nat} (inside : depthAfter depth tokens = some behind) :
    (openGroups depth walk).run look tokens =
      (openGroups behind (walk.meeting (tokens.any Token.isBracket)), []) := by
  induction tokens generalizing walk depth with
  | nil =>
      obtain rfl : depth = behind := by simpa [depthAfter] using inside
      simp [run]
  | cons token tokens induction =>
      rw [depthAfter, List.foldlM_cons] at inside
      obtain ⟨between, first, rest⟩ := Option.bind_eq_some_iff.mp inside
      have still : (walk.meeting token.isBracket).level.outcome = .settled := settled
      have later := induction still rest
      simp [run, step_openGroups settled first, later]

theorem run_of_settled (settled : walk.level.outcome = .settled) {tokens : List Token}
    (balanced : IsBalanced tokens) :
    walk.run look tokens = (walk.meeting (tokens.any Token.isBracket), []) :=
  @run_openGroups look walk settled tokens 0 0 balanced

/-- A group in brackets that is ignored leaves the walk as it was, but for having met an item. -/
theorem run_bracketed_of_ignoresGroup (ignores : walk.level.ignoresGroup = true)
    {opening closing : Token} (opens : opening.role = .opening) (closes : closing.role = .closing)
    {tokens : List Token} (balanced : IsBalanced tokens) :
    walk.run look (opening :: tokens ++ [closing]) = (walk.meeting true, []) := by
  have through : walk.openGroup.run look tokens = (walk.openGroup, []) := by
    rw [run_of_settled (outcome_openGroup_of_ignoresGroup ignores) balanced]
    rfl
  rw [List.cons_append, run, run_append, step_opening opens, through]
  simp only [run, step_closing_openGroup closes ignores, List.append_nil]

end Settled

/-! ## Balanced segments -/

/-- What a balanced segment leaves alone.  The groups that were open in front of it stay open all the
way through it, and they are the open groups behind it.  In a settled group the walk comes out of the
segment as it went in, and so it does out of the segment in brackets if its branch has failed and no
negation is pending; it has then met an item if there was a bracket.  This is so for every lookup,
whatever it would answer and ask, so that no term of the segment is looked up. -/
theorem run_passes_over_balanced {tokens : List Token} (balanced : IsBalanced tokens)
    (look : Lookup) (walk : Walk) :
    (∀ front, front <+: tokens → walk.frames <:+ (walk.run look front).1.frames) ∧
    (walk.run look tokens).1.frames = walk.frames ∧
    (walk.level.outcome = .settled →
      walk.run look tokens = (walk.meeting (tokens.any Token.isBracket), [])) ∧
    (walk.level.outcome = .failed → walk.level.negated = false →
      ∀ opening closing : Token, opening.role = .opening → closing.role = .closing →
        walk.run look (opening :: tokens ++ [closing]) = (walk.meeting true, [])) := by
  refine ⟨fun front part => ?_, ?_, fun settled => ?_, fun failed plain opening closing opens closes =>
    ?_⟩
  · exact frames_isSuffix_of_isPrefix look walk balanced part
  · exact frames_run_of_isBalanced look walk balanced
  · exact run_of_settled settled balanced
  · have ignores : walk.level.ignoresGroup = true :=
      (Level.ignoresGroup_iff walk.level).mpr (.inr ⟨failed, plain⟩)
    exact run_bracketed_of_ignoresGroup ignores opens closes balanced

/-- The segment `NOT ( a OR NOT ( b ) ) OR c NOT` in a settled group with a pending negation, and in
brackets behind a failed item, when every term would be found and every lookup be told. -/
theorem run_passes_over_balanced_nested :
    let word := fun text => Token.bare (Bytes.ofString text)
    let tokens := [word "NOT", word "(", word "a", word "OR", word "NOT", word "(", word "b",
      word ")", word ")", word "OR", word "c", word "NOT"]
    let look : Lookup := fun token _ => ⟨true, [⟨token.text, 0, token.text⟩]⟩
    let around : List Frame := [⟨false, ⟨.holding, true⟩⟩]
    let settled : Walk := ⟨⟨.settled, true⟩, around, true⟩
    let failed : Walk := ⟨⟨.failed, false⟩, around, true⟩
    IsBalanced tokens ∧
      settled.run look tokens = (settled, []) ∧
      failed.run look (word "(" :: tokens ++ [word ")"]) = (failed, []) ∧
      (failed.run look tokens).1.frames = around := by
  intro word tokens look around settled failed
  have balanced : IsBalanced tokens := by decide
  obtain ⟨-, -, through, -⟩ := run_passes_over_balanced balanced look settled
  obtain ⟨-, kept, -, skipped⟩ := run_passes_over_balanced balanced look failed
  exact ⟨balanced, through rfl,
    skipped rfl rfl (word "(") (word ")") (by decide) (by decide), kept⟩

end Walk
end NameSearch
