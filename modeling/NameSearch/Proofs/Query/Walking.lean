import NameSearch.Query.Evaluation

/-!
# Walks over the tokens of a query

What one token does to a walk, and what many do.  A walk learns from its lookup only whether terms
hold, it never looks at groups that were open before it started, and it has met an item as soon as
it has passed a term or a bracket.
-/

namespace NameSearch

namespace Token

/-- Whether the token is an item of a query or a bracket around items. -/
def isItem (token : Token) : Bool :=
  match token.role with
  | .opening | .closing | .term => true
  | .idle | .keyword _ => false

/-- Whether the token may be searched for: a closing bracket is where no group is open. -/
def mayBeTerm (token : Token) : Bool :=
  match token.role with
  | .closing | .term => true
  | .idle | .opening | .keyword _ => false

/-- How many groups are open behind a token when `depth` are open in front of it; nothing for a
closing bracket where no group is open. -/
def depthBehind (token : Token) (depth : Nat) : Option Nat :=
  match token.role, depth with
  | .opening, depth => some (depth + 1)
  | .closing, 0 => none
  | .closing, depth + 1 => some depth
  | _, depth => some depth

end Token

/-- How many groups are open behind some tokens when `depth` are open in front of them; nothing if
a closing bracket among them closes no group. -/
def depthAfter (depth : Nat) (tokens : List Token) : Option Nat :=
  tokens.foldlM (fun depth token => token.depthBehind depth) depth

/-- Every closing bracket closes a group that was opened before it, and no group stays open. -/
def IsBalanced (tokens : List Token) : Prop := depthAfter 0 tokens = some 0

instance (tokens : List Token) : Decidable (IsBalanced tokens) :=
  inferInstanceAs (Decidable (depthAfter 0 tokens = some 0))

namespace Walk

/-! ## One step for each role of a token -/

section Step

variable {look : Lookup} {walk : Walk} {token : Token}

@[simp]
theorem step_idle (role : token.role = .idle) : walk.step look token = (walk, []) := by
  simp [step, role]

@[simp]
theorem step_opening (role : token.role = .opening) :
    walk.step look token = (walk.openGroup, []) := by
  simp [step, role]

@[simp]
theorem step_keyword {keyword : Keyword} (role : token.role = .keyword keyword) :
    walk.step look token = (walk.combine keyword, []) := by
  simp [step, role]

@[simp]
theorem step_term (role : token.role = .term) :
    walk.step look token = walk.meet look token := by
  simp [step, role]

@[simp]
theorem step_stray (role : token.role = .closing) (outermost : walk.frames = []) :
    walk.step look token = walk.meet look token := by
  simp [step, role, outermost]

@[simp]
theorem step_closing {frame : Frame} {frames : List Frame} (role : token.role = .closing)
    (inside : walk.frames = frame :: frames) :
    walk.step look token = ({ walk with level := frame.close walk.level, frames }, []) := by
  simp [step, role, inside]

end Step

/-! ## The answers of a lookup -/

theorem meet_congr {look other : Lookup} {walk : Walk} {token : Token}
    (agree : (look token walk.level.negated).found = (other token walk.level.negated).found) :
    (walk.meet look token).1 = (walk.meet other token).1 := by
  rw [meet, meet]
  split
  · rfl
  · simp only [agree]

theorem step_congr {look other : Lookup} {walk : Walk} {token : Token}
    (agree : token.mayBeTerm = true →
      (look token walk.level.negated).found = (other token walk.level.negated).found) :
    (walk.step look token).1 = (walk.step other token).1 := by
  cases role : token.role with
  | idle => simp [role]
  | opening => simp [role]
  | keyword keyword => simp [role]
  | term =>
      have agree := agree (by rw [Token.mayBeTerm, role])
      simpa [role] using meet_congr agree
  | closing =>
      have agree := agree (by rw [Token.mayBeTerm, role])
      cases opened : walk.frames with
      | nil => simpa [role, opened] using meet_congr agree
      | cons frame frames => rw [step_closing role opened, step_closing role opened]

/-- Two lookups that agree at every place a walk may come to lead it to the same state. -/
theorem run_congr_of_kept {look other : Lookup} {motive : Walk → Prop} {tokens : List Token}
    (stays : ∀ token ∈ tokens, ∀ walk, motive walk → motive (walk.step look token).1)
    (agree : ∀ token ∈ tokens, token.mayBeTerm = true → ∀ walk, motive walk →
      (look token walk.level.negated).found = (other token walk.level.negated).found)
    {walk : Walk} (start : motive walk) :
    (walk.run look tokens).1 = (walk.run other tokens).1 := by
  induction tokens generalizing walk with
  | nil => rfl
  | cons token tokens induction =>
      have here : (walk.step look token).1 = (walk.step other token).1 :=
        step_congr fun term => agree token List.mem_cons_self term walk start
      have later := induction (fun next member => stays next (List.mem_cons_of_mem token member))
        (fun next member => agree next (List.mem_cons_of_mem token member))
        (stays token List.mem_cons_self walk start)
      simp only [run]
      rw [later, here]

theorem run_congr {look other : Lookup} {tokens : List Token}
    (agree : ∀ token ∈ tokens, token.mayBeTerm = true →
      ∀ negated, (look token negated).found = (other token negated).found) (walk : Walk) :
    (walk.run look tokens).1 = (walk.run other tokens).1 :=
  run_congr_of_kept (motive := fun _ => True) (fun _ _ _ _ => trivial)
    (fun token member term walk _ => agree token member term walk.level.negated) trivial

/-! ## Groups around a walk -/

/-- A walk as it is with more groups around it, and an item met before it if `met`. -/
def within (outside : List Frame) (met : Bool) (walk : Walk) : Walk :=
  { walk with frames := walk.frames ++ outside, hasItem := walk.hasItem || met }

@[simp]
theorem openGroup_within (outside : List Frame) (met : Bool) (walk : Walk) :
    (walk.within outside met).openGroup = walk.openGroup.within outside met := by
  cases ignored : walk.level.ignoresGroup <;> simp [within, openGroup, ignored]

@[simp]
theorem length_frames_openGroup (walk : Walk) :
    walk.openGroup.frames.length = walk.frames.length + 1 := rfl

@[simp]
theorem combine_within (outside : List Frame) (met : Bool) (walk : Walk) (keyword : Keyword) :
    (walk.within outside met).combine keyword = (walk.combine keyword).within outside met := by
  cases keyword <;> rfl

@[simp]
theorem meet_within (look : Lookup) (outside : List Frame) (met : Bool) (walk : Walk)
    (token : Token) :
    (walk.within outside met).meet look token =
      ((walk.meet look token).1.within outside met, (walk.meet look token).2) := by
  cases settled : walk.level.isSettled <;> simp [within, meet, settled]

@[simp]
theorem frames_meet (look : Lookup) (walk : Walk) (token : Token) :
    (walk.meet look token).1.frames = walk.frames := by
  rw [meet]
  split <;> rfl

@[simp]
theorem frames_combine (walk : Walk) (keyword : Keyword) :
    (walk.combine keyword).frames = walk.frames := by
  cases keyword <;> rfl

/-- A step that does not close a group from outside is the same whatever is around it. -/
theorem step_within (look : Lookup) (outside : List Frame) (met : Bool) {walk : Walk}
    {token : Token} {depth : Nat} (inside : token.depthBehind walk.frames.length = some depth) :
    (walk.within outside met).step look token =
        ((walk.step look token).1.within outside met, (walk.step look token).2) ∧
      (walk.step look token).1.frames.length = depth := by
  simp only [Token.depthBehind] at inside
  cases role : token.role with
  | idle => simpa [role] using inside
  | opening => simpa [role] using inside
  | keyword keyword => simpa [role] using inside
  | term => simpa [role] using inside
  | closing =>
      cases opened : walk.frames with
      | nil => simp [role, opened] at inside
      | cons frame frames => simpa [step, role, opened, within] using inside

/-- A run that closes no group from outside is the same whatever is around it. -/
theorem run_within (look : Lookup) (outside : List Frame) (met : Bool) {walk : Walk}
    {tokens : List Token} {depth : Nat}
    (inside : depthAfter walk.frames.length tokens = some depth) :
    (walk.within outside met).run look tokens =
        ((walk.run look tokens).1.within outside met, (walk.run look tokens).2) ∧
      (walk.run look tokens).1.frames.length = depth := by
  induction tokens generalizing walk with
  | nil => exact ⟨rfl, by simpa [depthAfter, run] using inside⟩
  | cons token tokens induction =>
      rw [depthAfter, List.foldlM_cons] at inside
      obtain ⟨between, first, rest⟩ := Option.bind_eq_some_iff.mp inside
      obtain ⟨here, deep⟩ := step_within look outside met first
      rw [← deep] at rest
      obtain ⟨later, final⟩ := induction rest
      refine ⟨?_, final⟩
      simp only [run, here, later]

/-! ## Whether an item has been met -/

/-- Before its first item a walk has opened no group and knows nothing. -/
def StartsEmpty (walk : Walk) : Prop :=
  walk.hasItem = false → walk.frames = [] ∧ walk.level.outcome = .undetermined

theorem startsEmpty_initial : ({} : Walk).StartsEmpty := fun _ => ⟨rfl, rfl⟩

theorem startsEmpty_combine {walk : Walk} (empty : walk.StartsEmpty) (keyword : Keyword) :
    (walk.combine keyword).StartsEmpty := by
  intro none
  have before : walk.hasItem = false := by cases keyword <;> exact none
  obtain ⟨noFrames, undetermined⟩ := empty before
  refine ⟨by simp [noFrames], ?_⟩
  cases keyword with
  | and => exact undetermined
  | or => simp [combine, Level.branch, Outcome.branch, undetermined]
  | not => simp [combine, Level.negate, Level.isSettled, undetermined]

/-- A walk that meets a term has met an item: a settled group already holds one. -/
theorem hasItem_meet (look : Lookup) {walk : Walk} (empty : walk.StartsEmpty) (token : Token) :
    (walk.meet look token).1.hasItem = true := by
  cases settled : walk.level.isSettled with
  | false => simp [meet, settled]
  | true =>
      cases met : walk.hasItem with
      | true => simpa [meet, settled] using met
      | false => simp [Level.isSettled, (empty met).2] at settled

theorem hasItem_step (look : Lookup) {walk : Walk} (empty : walk.StartsEmpty) (token : Token) :
    (walk.step look token).1.hasItem = (walk.hasItem || token.isItem) ∧
      (walk.step look token).1.StartsEmpty := by
  have met : (walk.meet look token).1.hasItem = true := hasItem_meet look empty token
  have stays : (walk.meet look token).1.StartsEmpty := fun none => by simp [met] at none
  rw [Token.isItem]
  cases role : token.role with
  | idle => simpa [role] using empty
  | opening => simp [role, openGroup, StartsEmpty]
  | keyword keyword =>
      rw [step_keyword role]
      refine ⟨?_, startsEmpty_combine empty keyword⟩
      cases keyword <;> simp [combine]
  | term =>
      rw [step_term role]
      exact ⟨by simpa using met, stays⟩
  | closing =>
      cases opened : walk.frames with
      | nil =>
          rw [step_stray role opened]
          exact ⟨by simpa using met, stays⟩
      | cons frame frames =>
          rw [step_closing role opened]
          have item : walk.hasItem = true := by
            cases met : walk.hasItem with
            | true => rfl
            | false => simp [(empty met).1] at opened
          simp [item, StartsEmpty]

theorem hasItem_run (look : Lookup) {walk : Walk} (empty : walk.StartsEmpty)
    (tokens : List Token) :
    (walk.run look tokens).1.hasItem = (walk.hasItem || tokens.any Token.isItem) := by
  induction tokens generalizing walk with
  | nil => simp [run]
  | cons token tokens induction =>
      obtain ⟨here, next⟩ := hasItem_step look empty token
      rw [run, List.any_cons, ← Bool.or_assoc, ← here]
      exact induction next

/-! ## Groups in brackets -/

/-- A group in brackets adds its truth value to the level it stands in, or changes nothing where
it is ignored. -/
theorem run_bracketed (look : Lookup) (walk : Walk) {opening closing : Token}
    (opens : opening.role = .opening) (closes : closing.role = .closing) {tokens : List Token}
    (balanced : IsBalanced tokens) :
    (walk.run look (opening :: tokens ++ [closing])).1 =
      { walk with
        level :=
          if walk.level.ignoresGroup then walk.level
          else walk.level.add (Walk.run look {} tokens).1.level.outcome.holds
        hasItem := true } := by
  let inner : Walk := { level := if walk.level.ignoresGroup then Level.skipped else {} }
  let frame : Frame := ⟨walk.level.ignoresGroup, walk.level⟩
  have opened : walk.openGroup = inner.within (frame :: walk.frames) true := by
    simp [openGroup, within, inner, frame]
  have noFrames : depthAfter inner.frames.length tokens = some 0 := balanced
  obtain ⟨inside, closed⟩ := run_within look (frame :: walk.frames) true noFrames
  have back := List.length_eq_zero_iff.mp closed
  rw [List.cons_append, run, run_append, step_opening opens, opened, inside]
  simp only [run, step, closes, within, back, List.nil_append]
  cases ignored : walk.level.ignoresGroup <;>
    simp [inner, frame, Frame.close, ignored]

end Walk
end NameSearch
