import NameSearch.Proofs.Query.Tree
import NameSearch.Proofs.Query.Walking
import NameSearch.Proofs.Search.Occurrence

/-!
# Evaluation as the value of a tree

The walk over the tokens of a query answers what the tree of the query says.  At every place of the
query the state of the walk and what is still to come of the open groups determine the answer; this
forecast is the same before and after each step.
-/

namespace NameSearch

namespace Outcome

/-- The value of a group that has come to an outcome when the rest of it is `group`. -/
def resume (contains : Token → Bool → Bool) (outcome : Outcome) (group : Group) : Bool :=
  match outcome with
  | .settled => true
  | .undetermined => Group.holds contains group
  | .failed => Group.holds contains group.tail
  | .holding => (group.headD []).all (Item.holds contains) || Group.holds contains group.tail

variable (contains : Token → Bool → Bool)

/-- A group that ends has the value it came to. -/
@[simp]
theorem resume_end (outcome : Outcome) : outcome.resume contains [[]] = outcome.holds := by
  cases outcome <;> rfl

@[simp]
theorem resume_addItem (outcome : Outcome) (item : Item) (group : Group) :
    outcome.resume contains (group.addItem item) =
      (outcome.conjoin (item.holds contains)).resume contains group := by
  cases group <;> cases outcome <;> cases value : item.holds contains <;>
    simp [resume, conjoin, Group.addItem, Group.holds_eq, Branch.holds, value]

theorem resume_addBranch (outcome : Outcome) (group : Group) :
    outcome.resume contains ([] :: group) = outcome.branch.resume contains group := by
  cases outcome <;> simp [resume, branch, Group.holds_eq, Branch.holds]

end Outcome

/-! ## Groups that are ignored -/

namespace Level

theorem ignoresGroup_iff (level : Level) :
    level.ignoresGroup = true ↔
      level.outcome = .settled ∨ level.outcome = .failed ∧ level.negated = false := by
  simp [ignoresGroup, isSettled]

theorem outcome_ne_settled {level : Level} (enters : level.ignoresGroup = false) :
    level.outcome ≠ .settled := by
  intro settled
  simp [ignoresGroup, isSettled, settled] at enters

@[simp]
theorem outcome_negate (level : Level) : level.negate.outcome = level.outcome := by
  rw [negate]
  split <;> rfl

theorem conjoin_of_ignoresGroup {level : Level} (ignores : level.ignoresGroup = true)
    (value : Bool) : level.outcome.conjoin value = level.outcome := by
  rcases (ignoresGroup_iff level).mp ignores with settled | ⟨failed, -⟩
  · rw [settled]
    rfl
  · rw [failed]
    rfl

end Level

namespace Walk

/-- Only groups that cannot change the outcome around them are ignored. -/
def IgnoresRightly (walk : Walk) : Prop :=
  ∀ frame ∈ walk.frames, frame.isIgnored = true → frame.outer.ignoresGroup = true

theorem ignoresRightly_step (look : Lookup) {walk : Walk} (rightly : walk.IgnoresRightly)
    (token : Token) : (walk.step look token).1.IgnoresRightly := by
  have met : (walk.meet look token).1.IgnoresRightly := by
    intro frame member
    exact rightly frame (by simpa using member)
  cases role : token.role with
  | idle => simpa [role] using rightly
  | keyword keyword =>
      intro frame member
      exact rightly frame (by simpa [role] using member)
  | opening =>
      rw [step_opening role]
      intro frame member ignored
      rcases List.mem_cons.mp member with rfl | before
      · exact ignored
      · exact rightly frame before ignored
  | term => simpa [role] using met
  | closing =>
      cases opened : walk.frames with
      | nil => simpa [role, opened] using met
      | cons inner frames =>
          rw [step_closing role opened]
          intro frame member
          exact rightly frame (opened ▸ List.mem_cons_of_mem inner member)

/-! ## The forecast of a walk -/

/-- The answer a walk comes to from a level and the frames around it, when `rest` is still to come
of the open groups. -/
def forecast (contains : Token → Bool → Bool) : Level → List Frame → Rest → Bool
  | level, [], rest => level.outcome.resume contains rest.inner
  | level, frame :: frames, rest =>
    let value := level.outcome.resume contains rest.inner
    forecast contains (if frame.isIgnored then frame.outer else frame.outer.add value) frames
      rest.leave

variable {contains : Token → Bool → Bool}

/-- A forecast needs only the value of the innermost group and what comes behind it. -/
theorem forecast_congr {level other : Level} {rest rest' : Rest}
    (value : level.outcome.resume contains rest.inner = other.outcome.resume contains rest'.inner)
    (behind : rest.leave = rest'.leave) (frames : List Frame) :
    forecast contains level frames rest = forecast contains other frames rest' := by
  cases frames <;> simp [forecast, value, behind]

theorem forecast_end (level : Level) (frames : List Frame) :
    forecast contains level frames {} =
      (frames.foldl (fun inner frame => frame.close inner) level).outcome.holds := by
  induction frames generalizing level with
  | nil => exact Outcome.resume_end contains level.outcome
  | cons frame frames induction =>
      rw [forecast, Rest.leave_empty, induction]
      simp [Frame.close]

/-- Whether the next item is negated, unless nothing depends on it any more. -/
def Agrees (level : Level) (negated : Bool) : Prop :=
  level.outcome = .settled ∨ level.negated = negated

theorem agrees_of_ignoresGroup {level : Level} (ignores : level.ignoresGroup = true) :
    Agrees level false :=
  ((Level.ignoresGroup_iff level).mp ignores).imp_right And.right

theorem agrees_branch {level : Level} {negated : Bool} (agrees : Agrees level negated) :
    Agrees level.branch negated := by
  refine agrees.imp_left fun settled => ?_
  simp [Level.branch, Outcome.branch, settled]

theorem agrees_negate {level : Level} {negated : Bool} (agrees : Agrees level negated) :
    Agrees level.negate (!negated) := by
  rw [Level.negate]
  split
  · next settled => exact .inl (by simpa [Level.isSettled] using settled)
  · next unsettled =>
      rcases agrees with settled | same
      · simp [Level.isSettled, settled] at unsettled
      · exact .inr (by rw [same])

theorem agrees_close {frame : Frame}
    (rightly : frame.isIgnored = true → frame.outer.ignoresGroup = true) (inner : Level) :
    Agrees (frame.close inner) false := by
  rw [Frame.close]
  split
  · next ignored => exact agrees_of_ignoresGroup (rightly ignored)
  · exact .inr rfl

theorem resume_meet {look : Lookup}
    (answers : ∀ token negated, (look token negated).found = contains token negated)
    {walk : Walk} {negated : Bool} (agrees : Agrees walk.level negated) (token : Token)
    (group : Group) :
    (walk.meet look token).1.level.outcome.resume contains group =
      walk.level.outcome.resume contains (group.addItem (.term negated token)) := by
  rw [Outcome.resume_addItem]
  cases settled : walk.level.isSettled with
  | true =>
      have outcome : walk.level.outcome = .settled := by simpa [Level.isSettled] using settled
      simp [meet, settled, outcome, Outcome.resume, Outcome.conjoin]
  | false =>
      have same : walk.level.negated = negated :=
        agrees.resolve_left (by simpa [Level.isSettled] using settled)
      simp [meet, settled, Level.add, answers, same, Item.holds]

theorem forecast_meet {look : Lookup}
    (answers : ∀ token negated, (look token negated).found = contains token negated)
    {walk : Walk} {negated : Bool} (agrees : Agrees walk.level negated) (token : Token)
    (rest : Rest) :
    forecast contains (walk.meet look token).1.level walk.frames rest =
      forecast contains walk.level walk.frames (rest.addItem (.term negated token)) := by
  apply forecast_congr
  · exact resume_meet answers agrees token rest.inner
  · rfl

theorem agrees_meet (look : Lookup) (walk : Walk) (token : Token) :
    Agrees (walk.meet look token).1.level false := by
  rw [meet]
  split
  · next settled => exact .inl (by simpa [Level.isSettled] using settled)
  · exact .inr rfl

/-- A group that opens has the effect of its item when it closes. -/
theorem resume_openGroup {level : Level} {negated : Bool} (agrees : Agrees level negated)
    (inner group : Group) :
    (if level.ignoresGroup then level else level.add (Group.holds contains inner)).outcome.resume
        contains group =
      level.outcome.resume contains (group.addItem (.group negated inner)) := by
  rw [Outcome.resume_addItem]
  cases ignores : level.ignoresGroup with
  | true =>
      rw [Level.conjoin_of_ignoresGroup ignores, if_pos rfl]
  | false =>
      have same : level.negated = negated := agrees.resolve_left (Level.outcome_ne_settled ignores)
      simp [Level.add, Item.holds, same]

theorem forecast_openGroup {walk : Walk} {negated : Bool} (agrees : Agrees walk.level negated)
    (rest : Rest) :
    forecast contains walk.openGroup.level walk.openGroup.frames rest =
      forecast contains walk.level walk.frames (rest.wrap negated) := by
  rw [openGroup, forecast]
  apply forecast_congr
  · rw [Rest.wrap, Rest.addItem, ← resume_openGroup agrees]
    cases walk.level.ignoresGroup <;> rfl
  · rfl

/-- Whether the next item is negated behind a token, when `negated` tells so in front of it. -/
def negatedBehind (token : Token) (negated : Bool) : Bool :=
  match token.role with
  | .idle | .keyword .and | .keyword .or => negated
  | .keyword .not => !negated
  | .opening | .closing | .term => false

theorem agrees_step (look : Lookup) {walk : Walk} {negated : Bool} (rightly : walk.IgnoresRightly)
    (agrees : Agrees walk.level negated) (token : Token) :
    Agrees (walk.step look token).1.level (negatedBehind token negated) := by
  rw [negatedBehind]
  cases role : token.role with
  | idle => simpa [role] using agrees
  | keyword keyword =>
      rw [step_keyword role]
      cases keyword with
      | and => exact agrees
      | or => exact agrees_branch agrees
      | not => exact agrees_negate agrees
  | opening =>
      rw [step_opening role]
      right
      cases ignored : walk.level.ignoresGroup <;> simp [openGroup, ignored, Level.skipped]
  | term =>
      rw [step_term role]
      exact agrees_meet look walk token
  | closing =>
      cases opened : walk.frames with
      | nil =>
          rw [step_stray role opened]
          exact agrees_meet look walk token
      | cons frame frames =>
          rw [step_closing role opened]
          exact agrees_close (rightly frame (opened ▸ List.mem_cons_self)) walk.level

/-- Whatever a step passes, the forecast in front of it is the forecast behind it. -/
theorem forecast_step {look : Lookup}
    (answers : ∀ token negated, (look token negated).found = contains token negated)
    {walk : Walk} {negated : Bool} (agrees : Agrees walk.level negated) (token : Token)
    (tokens : List Token) :
    forecast contains (walk.step look token).1.level (walk.step look token).1.frames
        (Rest.ofTokens (walk.step look token).1.frames.length (negatedBehind token negated)
          tokens) =
      forecast contains walk.level walk.frames
        (Rest.ofTokens walk.frames.length negated (token :: tokens)) := by
  rw [negatedBehind]
  cases role : token.role with
  | idle => simp [role]
  | keyword keyword =>
      rw [step_keyword role]
      cases keyword with
      | and => simp [role, combine]
      | or =>
          rw [Rest.ofTokens_or role]
          apply forecast_congr
          · exact (Outcome.resume_addBranch ..).symm
          · rfl
      | not =>
          rw [Rest.ofTokens_not role]
          apply forecast_congr
          · simp [combine]
          · rfl
  | opening => simp [role, ← forecast_openGroup agrees]
  | term => simp [role, ← forecast_meet answers agrees]
  | closing =>
      cases opened : walk.frames with
      | nil =>
          have met := forecast_meet answers agrees token (Rest.ofTokens 0 false tokens)
          rw [opened] at met
          simp [role, opened, met]
      | cons frame frames =>
          rw [step_closing role opened]
          simp [role, forecast, Frame.close]

/-- The run of a walk comes to the answer that is forecast from what is still to come. -/
theorem holds_close_run {look : Lookup}
    (answers : ∀ token negated, (look token negated).found = contains token negated)
    {walk : Walk} {negated : Bool} (rightly : walk.IgnoresRightly)
    (agrees : Agrees walk.level negated) (tokens : List Token) :
    (walk.run look tokens).1.close.outcome.holds =
      forecast contains walk.level walk.frames
        (Rest.ofTokens walk.frames.length negated tokens) := by
  induction tokens generalizing walk negated with
  | nil => exact (forecast_end walk.level walk.frames).symm
  | cons token tokens induction =>
      rw [run, ← forecast_step answers agrees token tokens]
      exact induction (ignoresRightly_step look rightly token)
        (agrees_step look rightly agrees token)

end Walk

/-! ## The answer of an evaluation -/

theorem isVoid_ofTokens (negated : Bool) (tokens : List Token) :
    (Rest.ofTokens 0 negated tokens).inner.isVoid = !tokens.any Token.isItem := by
  induction tokens generalizing negated with
  | nil => rfl
  | cons token tokens induction =>
      rw [List.any_cons, Token.isItem]
      cases role : token.role with
      | idle => simpa [role] using induction negated
      | opening => simp [role, Rest.wrap, Rest.addItem]
      | closing => simp [role, Rest.addItem]
      | term => simp [role, Rest.addItem]
      | keyword keyword =>
          cases keyword with
          | and => simpa [role] using induction negated
          | or => simpa [role, Rest.addBranch] using induction negated
          | not => simpa [role] using induction (!negated)

/-- A walk answers what its lookup makes of the tree; a tree without items holds. -/
theorem Walk.answer_run {look : Lookup} {contains : Token → Bool → Bool}
    (answers : ∀ token negated, (look token negated).found = contains token negated)
    (tokens : List Token) :
    (Walk.run look {} tokens).1.answer =
      ((Group.ofTokens tokens).isVoid || (Group.ofTokens tokens).holds contains) := by
  have met := hasItem_run look startsEmpty_initial tokens
  have rightly : ({} : Walk).IgnoresRightly := fun frame member => nomatch member
  have value := holds_close_run answers rightly (.inr rfl) tokens
  rw [answer, met, value, Group.ofTokens, isVoid_ofTokens]
  rfl

/-- The answer to a query is the value of its tree; a query without items holds. -/
theorem found_evaluate (candidates : List Bytes) (given : Option Comparison)
    (tokens : List Token) :
    (evaluate candidates given tokens).found =
      ((Group.ofTokens tokens).isVoid ||
        (Group.ofTokens tokens).holds (contains candidates given)) :=
  Walk.answer_run (found_lookup candidates given) tokens

/-! ## Evaluations that agree -/

theorem found_congr_terms {candidates others : List Bytes} {given given' : Option Comparison}
    {tokens : List Token}
    (agree : ∀ token ∈ tokens, token.mayBeTerm = true → ∀ negated,
      contains candidates given token negated = contains others given' token negated) :
    (evaluate candidates given tokens).found = (evaluate others given' tokens).found := by
  have alike : ∀ token ∈ tokens, token.mayBeTerm = true → ∀ negated,
      (lookup candidates given token negated).found =
        (lookup others given' token negated).found := by
    intro token member searched negated
    rw [found_lookup, found_lookup]
    exact agree token member searched negated
  rw [evaluate, evaluate, Walk.run_congr alike]

theorem contains_given_exact (candidates : List Bytes) (token : Token) (negated : Bool) :
    contains candidates (some Comparison.exact) token negated =
      contains candidates none token negated := by
  cases negated <;> rfl

/-- The exact comparison, when it is given, answers a query as no given comparison does: the offsets
that it is asked about in addition are those where no text fits. -/
theorem found_given_exact (candidates : List Bytes) (tokens : List Token) :
    (evaluate candidates (some Comparison.exact) tokens).found =
      (evaluate candidates none tokens).found := by
  apply found_congr_terms
  intro token _ _ negated
  exact contains_given_exact candidates token negated

end NameSearch
