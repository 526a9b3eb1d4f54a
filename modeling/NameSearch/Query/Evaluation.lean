import NameSearch.Query
import NameSearch.Search.Finding

/-!
# Evaluating a query

A query is evaluated in one walk over its tokens.  Terms and groups side by side must all hold,
`OR` starts another branch, `NOT` negates the next term or group.  Nothing is malformed: keywords
that combine nothing are passed over, a closing bracket without a group is a term, and groups that
are open at the end are closed there.

The walk keeps a level for the group it is in and a frame for each group around it.  Terms are
searched for as they are met, except where the group has been decided by an earlier branch.
-/

namespace NameSearch

/-- What is known of a group so far. -/
inductive Outcome where
  /-- The current branch has no item yet. -/
  | undetermined
  /-- An item of the current branch does not hold. -/
  | failed
  /-- All items of the current branch hold. -/
  | holding
  /-- An earlier branch holds, which decides the group. -/
  | settled
  deriving DecidableEq

namespace Outcome

/-- Whether the group would hold if it ended here. -/
def holds : Outcome → Bool
  | holding | settled => true
  | undetermined | failed => false

/-- Add an item with a truth value to the current branch. -/
def conjoin : Outcome → Bool → Outcome
  | settled, _ => settled
  | failed, _ => failed
  | undetermined, value | holding, value => if value then holding else failed

/-- End the current branch and start another. -/
def branch : Outcome → Outcome
  | settled | holding => settled
  | undetermined | failed => undetermined

end Outcome

/-- State of the group a walk is in. -/
structure Level where
  /-- What is known of the group. -/
  outcome : Outcome := .undetermined
  /-- Whether the next item is negated. -/
  negated : Bool := false
  deriving DecidableEq

namespace Level

/-- Level of a group that has been decided and is only walked through. -/
def skipped : Level := ⟨.settled, false⟩

/-- Whether the rest of the group is passed over. -/
def isSettled (level : Level) : Bool := level.outcome == .settled

/-- Add an item, which uses up a pending negation. -/
def add (level : Level) (value : Bool) : Level :=
  ⟨level.outcome.conjoin (value ^^ level.negated), false⟩

/-- Start another branch; a pending negation stays. -/
def branch (level : Level) : Level := { level with outcome := level.outcome.branch }

/-- Negate the next item, unless the rest of the group is passed over. -/
def negate (level : Level) : Level :=
  if level.isSettled then level else { level with negated := !level.negated }

/-- Whether a group that opens here cannot change the outcome: the group around it is settled, or
its branch has failed and no negation is pending. -/
def ignoresGroup (level : Level) : Bool :=
  level.isSettled || (level.outcome == .failed && !level.negated)

end Level

/-- What a walk keeps of the group around the one it is in. -/
structure Frame where
  /-- Whether the inner group is ignored. -/
  isIgnored : Bool
  /-- The level of the outer group when the inner one opened. -/
  outer : Level
  deriving DecidableEq

/-- Close the inner group: the outer level takes its value, unless the group was ignored. -/
def Frame.close (frame : Frame) (inner : Level) : Level :=
  if frame.isIgnored then frame.outer else frame.outer.add inner.outcome.holds

/-- State of a walk between two tokens. -/
structure Walk where
  /-- The group the walk is in. -/
  level : Level := {}
  /-- The groups around it, innermost first. -/
  frames : List Frame := []
  /-- Whether a term or a group has been met. -/
  hasItem : Bool := false
  deriving DecidableEq

/-- How a walk learns whether a term holds, given the term and whether it is directly negated. -/
abbrev Lookup := Token → Bool → Finding

namespace Walk

/-- Open a group. -/
def openGroup (walk : Walk) : Walk :=
  let ignored := walk.level.ignoresGroup
  { level := if ignored then Level.skipped else {}
    frames := ⟨ignored, walk.level⟩ :: walk.frames
    hasItem := true }

/-- Meet a term, which is searched for unless the group is settled. -/
def meet (look : Lookup) (walk : Walk) (token : Token) : Walk × List Probe :=
  if walk.level.isSettled then (walk, [])
  else
    let finding := look token walk.level.negated
    ({ walk with level := walk.level.add finding.found, hasItem := true }, finding.probes)

/-- Meet a keyword. -/
def combine (walk : Walk) : Keyword → Walk
  | .and => walk
  | .or => { walk with level := walk.level.branch }
  | .not => { walk with level := walk.level.negate }

/-- Go on by one token; the questions put to the comparison are told beside the new state. -/
def step (look : Lookup) (walk : Walk) (token : Token) : Walk × List Probe :=
  match token.role with
  | .idle => (walk, [])
  | .opening => (walk.openGroup, [])
  | .closing =>
    match walk.frames with
    | [] => walk.meet look token
    | frame :: frames => ({ walk with level := frame.close walk.level, frames }, [])
  | .keyword keyword => (walk.combine keyword, [])
  | .term => walk.meet look token

/-- Go on to the end of some tokens, collecting the questions put to the comparison. -/
def run (look : Lookup) (walk : Walk) : List Token → Walk × List Probe
  | [] => (walk, [])
  | token :: tokens =>
    let next := walk.step look token
    let last := run look next.1 tokens
    (last.1, next.2 ++ last.2)

theorem run_append (look : Lookup) (walk : Walk) (front back : List Token) :
    walk.run look (front ++ back) =
      (((walk.run look front).1.run look back).1,
        (walk.run look front).2 ++ ((walk.run look front).1.run look back).2) := by
  induction front generalizing walk with
  | nil => simp [run]
  | cons token front induction => simp [run, induction]

/-- The level of the whole query once all open groups are closed. -/
def close (walk : Walk) : Level :=
  walk.frames.foldl (fun inner frame => frame.close inner) walk.level

/-- The answer at the end of the tokens: a query without items holds. -/
def answer (walk : Walk) : Bool := !walk.hasItem || walk.close.outcome.holds

end Walk

/-- Search for terms in some candidates; a directly negated term is always compared exactly. -/
def lookup (candidates : List Bytes) (comparison : Option Comparison) : Lookup :=
  fun token negated =>
    (Pattern.ofToken token).search (if negated then none else comparison) candidates

/-- Evaluate tokens against candidates: the answer, and the questions put to the comparison. -/
def evaluate (candidates : List Bytes) (comparison : Option Comparison) (tokens : List Token) :
    Finding :=
  let last := Walk.run (lookup candidates comparison) {} tokens
  ⟨last.1.answer, last.2⟩

/-- Whether candidates satisfy a query. -/
def Query.holds (query : Query) (candidates : List Bytes) (comparison : Option Comparison) :
    Bool :=
  (evaluate candidates comparison query.tokens).found

end NameSearch
