import Mathlib
import NameSearch.Proofs.Query.LetterCase
import NameSearch.Proofs.Query.Splitting
import NameSearch.Proofs.Query.Walking

/-!
# Composing raw queries

Raw queries compose as texts.  A query that is put into brackets keeps its value whatever is
written around it: two of them side by side hold together, with `OR` between them one suffices,
and `NOT` in front of one negates it.
-/

namespace NameSearch

/-! ## Normalized tokens -/

namespace Token

@[simp]
theorem isItem_normalize (token : Token) : token.normalize.isItem = token.isItem := by
  simp [isItem]

@[simp]
theorem depthBehind_normalize (token : Token) (depth : Nat) :
    token.normalize.depthBehind depth = token.depthBehind depth := by
  simp [depthBehind]

end Token

theorem isBalanced_map_normalize {tokens : List Token} :
    IsBalanced (tokens.map Token.normalize) ↔ IsBalanced tokens := by
  rw [IsBalanced, IsBalanced, depthAfter, depthAfter, List.foldlM_map]
  simp only [Token.depthBehind_normalize]

theorem any_isItem_map_normalize (tokens : List Token) :
    (tokens.map Token.normalize).any Token.isItem = tokens.any Token.isItem := by
  rw [List.any_map]
  exact congrArg tokens.any (funext Token.isItem_normalize)

namespace Query

/-! ## Phrases -/

/-- A raw query that is split strictly, into tokens with balanced brackets and an item among
them. -/
def IsPhrase (raw : Bytes) : Prop :=
  ∃ tokens, tokenize false raw = .ok tokens ∧ IsBalanced tokens ∧
    tokens.any Token.isItem = true

theorem IsPhrase.isClosed {raw : Bytes} (phrase : IsPhrase raw) : IsClosed raw := by
  obtain ⟨tokens, accepted, -⟩ := phrase
  exact (tokenize_strict_eq_ok_iff.mp accepted).1

theorem IsPhrase.isBalanced {raw : Bytes} (phrase : IsPhrase raw) :
    IsBalanced (parse raw).tokens := by
  obtain ⟨tokens, accepted, balanced, -⟩ := phrase
  rw [tokens_parse, (tokenize_strict_eq_ok_iff.mp accepted).2]
  exact isBalanced_map_normalize.mpr balanced

theorem IsPhrase.hasItem {raw : Bytes} (phrase : IsPhrase raw) :
    (parse raw).tokens.any Token.isItem = true := by
  obtain ⟨tokens, accepted, -, item⟩ := phrase
  rw [tokens_parse, (tokenize_strict_eq_ok_iff.mp accepted).2, any_isItem_map_normalize]
  exact item

/-- A phrase holds when the group it forms does: no group of it stays open. -/
theorem IsPhrase.holds_eq {raw : Bytes} (phrase : IsPhrase raw) (candidates : List Bytes)
    (given : Option Comparison) :
    (parse raw).holds candidates given =
      (Walk.run (lookup candidates given) {} (parse raw).tokens).1.level.outcome.holds := by
  let last := (Walk.run (lookup candidates given) {} (parse raw).tokens).1
  have met : last.hasItem = true := by
    rw [Walk.hasItem_run _ Walk.startsEmpty_initial, phrase.hasItem, Bool.or_true]
  have balanced : depthAfter ({} : Walk).frames.length (parse raw).tokens = some 0 :=
    phrase.isBalanced
  have closed := (Walk.run_within (lookup candidates given) [] false balanced).2
  have noFrames : last.frames = [] := List.length_eq_zero_iff.mp closed
  change last.answer = last.level.outcome.holds
  rw [Walk.answer, Walk.close, met, noFrames]
  rfl

/-! ## Words and brackets -/

/-- Whether a text is cut as one bare word. -/
def isWord : Bytes → Bool
  | [] => false
  | first :: rest =>
    Quote.ofByte? first == none && !Segment.isBlank first && rest.all (!Segment.isBlank ·)

theorem segments_word {word : Bytes} (solid : isWord word = true) :
    segments word = [Segment.bare word] := by
  cases word with
  | nil => cases solid
  | cons first rest =>
      simp only [isWord, Bool.and_eq_true, beq_iff_eq, Bool.not_eq_true'] at solid
      obtain ⟨⟨noQuote, letter⟩, behind⟩ := solid
      have whole := List.all_eq_true.mp behind
      rw [segments_cons, Segment.front_bare letter noQuote, List.takeWhile_eq_self_iff.mpr whole,
        List.dropWhile_eq_nil_iff.mpr whole, segments]

theorem isClosed_word {word : Bytes} (solid : isWord word = true) : IsClosed word := by
  simp [IsClosed, segments_word solid, Segment.isUnclosed]

theorem tokens_parse_word {word : Bytes} (solid : isWord word = true) :
    (parse word).tokens = [(Token.bare word).normalize] := by
  rw [tokens_parse, segments_word solid]
  rfl

theorem tokens_parse_word_append_blank {word : Bytes} (solid : isWord word = true)
    {blank : UInt8} (stops : Segment.isBlank blank = true) (back : Bytes) :
    (parse (word ++ blank :: back)).tokens =
      (Token.bare word).normalize :: (parse back).tokens := by
  rw [tokens_parse_append_blank (isClosed_word solid) stops, tokens_parse_word solid,
    List.singleton_append]

/-- A raw query in brackets, which stand apart from it. -/
def bracketed (raw : Bytes) : Bytes := Bytes.ofString "( " ++ raw ++ Bytes.ofString " )"

theorem bracketed_eq (raw : Bytes) :
    bracketed raw =
      Token.openingText ++ Byte.space :: (raw ++ Byte.space :: Token.closingText) := by
  rfl

theorem isClosed_bracketed {raw : Bytes} (closed : IsClosed raw) : IsClosed (bracketed raw) := by
  have opening : IsClosed Token.openingText := isClosed_word rfl
  have closing : IsClosed Token.closingText := isClosed_word rfl
  exact isClosed_append_blank opening (isClosed_append_blank closed closing rfl) rfl

theorem tokens_parse_bracketed {raw : Bytes} (closed : IsClosed raw) :
    (parse (bracketed raw)).tokens =
      Token.bare Token.openingText :: (parse raw).tokens ++ [Token.bare Token.closingText] := by
  have opening : isWord Token.openingText = true := rfl
  have closing : isWord Token.closingText = true := rfl
  rw [bracketed_eq, tokens_parse_word_append_blank opening rfl,
    tokens_parse_append_blank closed rfl, tokens_parse_word closing]
  rfl

/-- A phrase in brackets adds its value to the level it stands in, unless it is ignored there. -/
theorem IsPhrase.run_bracketed {raw : Bytes} (phrase : IsPhrase raw) (candidates : List Bytes)
    (given : Option Comparison) (walk : Walk) :
    (walk.run (lookup candidates given) (parse (bracketed raw)).tokens).1 =
      { walk with
        level :=
          if walk.level.ignoresGroup then walk.level
          else walk.level.add ((parse raw).holds candidates given)
        hasItem := true } := by
  rw [tokens_parse_bracketed phrase.isClosed, phrase.holds_eq]
  exact Walk.run_bracketed _ walk rfl rfl phrase.isBalanced

/-! ## Phrases side by side, one or the other, and negated -/

variable {first second : Bytes}

theorem holds_side_by_side (firstPhrase : IsPhrase first) (secondPhrase : IsPhrase second)
    (candidates : List Bytes) (given : Option Comparison) :
    (parse (bracketed first ++ Bytes.ofString " " ++ bracketed second)).holds candidates given =
      ((parse first).holds candidates given && (parse second).holds candidates given) := by
  have cut : (parse (bracketed first ++ Bytes.ofString " " ++ bracketed second)).tokens =
      (parse (bracketed first)).tokens ++ (parse (bracketed second)).tokens := by
    rw [List.append_assoc]
    exact tokens_parse_append_blank (isClosed_bracketed firstPhrase.isClosed) rfl _
  rw [Query.holds, evaluate, cut, Walk.run_append, firstPhrase.run_bracketed,
    secondPhrase.run_bracketed]
  cases (parse first).holds candidates given <;>
    cases (parse second).holds candidates given <;> rfl

theorem holds_either (firstPhrase : IsPhrase first) (secondPhrase : IsPhrase second)
    (candidates : List Bytes) (given : Option Comparison) :
    (parse (bracketed first ++ Bytes.ofString " OR " ++ bracketed second)).holds
        candidates given =
      ((parse first).holds candidates given || (parse second).holds candidates given) := by
  have word : isWord Keyword.or.text = true := rfl
  have branches : (Token.bare Keyword.or.text).normalize.role = .keyword .or := rfl
  have cut : (parse (bracketed first ++ Bytes.ofString " OR " ++ bracketed second)).tokens =
      (parse (bracketed first)).tokens ++
        (Token.bare Keyword.or.text).normalize :: (parse (bracketed second)).tokens := by
    have apart : Segment.isBlank Byte.space = true := rfl
    rw [List.append_assoc, ← tokens_parse_word_append_blank word apart]
    exact tokens_parse_append_blank (isClosed_bracketed firstPhrase.isClosed) rfl _
  rw [Query.holds, evaluate, cut, Walk.run_append, firstPhrase.run_bracketed, Walk.run,
    Walk.step_keyword branches, secondPhrase.run_bracketed]
  cases (parse first).holds candidates given <;>
    cases (parse second).holds candidates given <;> rfl

theorem holds_opposite (phrase : IsPhrase first) (candidates : List Bytes)
    (given : Option Comparison) :
    (parse (Bytes.ofString "NOT " ++ bracketed first)).holds candidates given =
      !(parse first).holds candidates given := by
  have word : isWord Keyword.not.text = true := rfl
  have negates : (Token.bare Keyword.not.text).normalize.role = .keyword .not := rfl
  have cut : (parse (Bytes.ofString "NOT " ++ bracketed first)).tokens =
      (Token.bare Keyword.not.text).normalize :: (parse (bracketed first)).tokens :=
    tokens_parse_word_append_blank word rfl (bracketed first)
  rw [Query.holds, evaluate, cut, Walk.run, Walk.step_keyword negates, phrase.run_bracketed]
  cases (parse first).holds candidates given <;> rfl

/-- Raw queries compose: in brackets and side by side both have to hold, with `OR` between them
one suffices, and `NOT` negates. -/
theorem holds_composed (firstPhrase : IsPhrase first) (secondPhrase : IsPhrase second)
    (candidates : List Bytes) (given : Option Comparison) :
    let value (raw : Bytes) : Bool := (parse raw).holds candidates given
    value (bracketed first ++ Bytes.ofString " " ++ bracketed second) =
        (value first && value second) ∧
      value (bracketed first ++ Bytes.ofString " OR " ++ bracketed second) =
        (value first || value second) ∧
      value (Bytes.ofString "NOT " ++ bracketed first) = !value first :=
  ⟨holds_side_by_side firstPhrase secondPhrase candidates given,
    holds_either firstPhrase secondPhrase candidates given,
    holds_opposite firstPhrase candidates given⟩

/-- Operators that combine nothing at the ends of two queries are not seen outside their
brackets. -/
theorem holds_composed_dangling :
    let first := Bytes.ofString "a OR"
    let second := Bytes.ofString "b NOT"
    let value (raw : Bytes) : Bool := (parse raw).holds [Bytes.ofString "a"] none
    (IsPhrase first ∧ IsPhrase second) ∧
      value (bracketed first ++ Bytes.ofString " " ++ bracketed second) = false ∧
      value (bracketed first ++ Bytes.ofString " OR " ++ bracketed second) = true ∧
      value (Bytes.ofString "NOT " ++ bracketed first) = false := by
  intro first second value
  have firstPhrase : IsPhrase first := ⟨_, by cbv, by decide, by decide⟩
  have secondPhrase : IsPhrase second := ⟨_, by cbv, by decide, by decide⟩
  have firstHolds : value first = true := by
    change (parse (Bytes.ofString "a OR")).holds [Bytes.ofString "a"] none = true
    cbv
  have secondFails : value second = false := by
    change (parse (Bytes.ofString "b NOT")).holds [Bytes.ofString "a"] none = false
    cbv
  have laws := holds_composed firstPhrase secondPhrase [Bytes.ofString "a"] none
  change value _ = (value first && value second) ∧ value _ = (value first || value second) ∧
    value _ = !value first at laws
  rw [firstHolds, secondFails] at laws
  exact ⟨⟨firstPhrase, secondPhrase⟩, laws⟩

end Query
end NameSearch
