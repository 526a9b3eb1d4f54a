import Mathlib.Data.List.Basic
import Mathlib.Logic.ExistsUnique
import Mathlib.Tactic.ByContra
import NameSearch.Search.Pattern

/-!
# Anchors of a token

A token is read as a mark in front of a text, the text, and a mark behind it, where a mark is taken
away wherever there is one.  The text may not be empty: a token of marks only is a text without
anchors.  Every token is read in exactly one way, which is the pattern it asks for.
-/

namespace NameSearch

namespace Anchor

/-- What an anchor is written as in front of a text. -/
def leftMark : Anchor → Bytes
  | free => []
  | word => [Byte.space]
  | field => [94]

/-- What an anchor is written as behind a text. -/
def rightMark : Anchor → Bytes
  | free => []
  | word => [Byte.space]
  | field => [36]

end Anchor

namespace Pattern

/-- What is left of a text when one mark in front of it is taken away and then, of what remains, one
mark behind it.  Where a side is free, no mark stood there. -/
structure IsStripped (text : Bytes) (left : Anchor) (core : Bytes) (right : Anchor) : Prop where
  /-- The marks and what is left are the text. -/
  whole : text = left.leftMark ++ (core ++ right.rightMark)
  /-- A mark in front is not left standing. -/
  unmarkedLeft : left = .free → ∀ anchor ≠ Anchor.free, ¬anchor.leftMark <+: text
  /-- A mark behind is not left standing. -/
  unmarkedRight : right = .free → ∀ anchor ≠ Anchor.free, ¬anchor.rightMark <:+ core

/-- How a token is read as a pattern. -/
inductive Reads (token : Token) : Pattern → Prop where
  /-- A token of marks only is searched for as it stands, even where it is quoted. -/
  | literal {left right : Anchor} (marks : IsStripped token.text left [] right) :
      Reads token ⟨token.text, .free, .free, false⟩
  /-- A bare token and a quotation of several words ask for what their marks say. -/
  | marked {left right : Anchor} {text : Bytes}
      (stripped : IsStripped token.text left text right) (filled : text ≠ [])
      (plain : token.quote = none ∨ Byte.space ∈ text ∨ Byte.tab ∈ text) :
      Reads token ⟨text, left, right, false⟩
  /-- A quotation of one word asks for the edge of a word on each side without a mark. -/
  | quotedWord {left right : Anchor} {text : Bytes}
      (stripped : IsStripped token.text left text right) (filled : text ≠ [])
      (quoted : token.quote ≠ none) (noSpace : Byte.space ∉ text) (noTab : Byte.tab ∉ text) :
      Reads token ⟨text, orWord left, orWord right, true⟩

/-! ## Taking marks away -/

/-- What is left of a text when the mark in front of it is taken away. -/
def behindMark (text : Bytes) : Bytes :=
  if leftAnchor text.head? = .free then text else text.tail

/-- What is left of a text when the mark behind it is taken away. -/
def beforeMark (text : Bytes) : Bytes :=
  if rightAnchor text.getLast? = .free then text else text.dropLast

theorem leftMark_append_behindMark (text : Bytes) :
    (leftAnchor text.head?).leftMark ++ behindMark text = text := by
  cases text with
  | nil => rfl
  | cons first rest =>
      simp only [behindMark, List.head?_cons, leftAnchor, List.tail_cons]
      split
      · next isSpace => simp [isSpace, Anchor.leftMark]
      · split
        · next isCaret => simp [isCaret, Anchor.leftMark]
        · rfl

theorem beforeMark_append_rightMark (text : Bytes) :
    beforeMark text ++ (rightAnchor text.getLast?).rightMark = text := by
  rcases List.eq_nil_or_concat' text with rfl | ⟨front, last, rfl⟩
  · rfl
  · simp only [beforeMark, List.getLast?_concat, rightAnchor, List.dropLast_concat]
    split
    · next isSpace => simp [isSpace, Anchor.rightMark]
    · split
      · next isDollar => simp [isDollar, Anchor.rightMark]
      · simp [Anchor.rightMark]

theorem IsStripped.left_eq {text core : Bytes} {left right : Anchor}
    (stripped : IsStripped text left core right) : leftAnchor text.head? = left := by
  cases left with
  | free =>
      by_contra marked
      exact stripped.unmarkedLeft rfl _ marked ⟨_, leftMark_append_behindMark text⟩
  | word => rw [stripped.whole]; rfl
  | field => rw [stripped.whole]; rfl

theorem IsStripped.behindMark_eq {text core : Bytes} {left right : Anchor}
    (stripped : IsStripped text left core right) : behindMark text = core ++ right.rightMark := by
  have same : left.leftMark ++ behindMark text = left.leftMark ++ (core ++ right.rightMark) := by
    rw [← stripped.whole, ← stripped.left_eq]
    exact leftMark_append_behindMark text
  exact List.append_cancel_left same

theorem IsStripped.right_eq {text core : Bytes} {left right : Anchor}
    (stripped : IsStripped text left core right) :
    rightAnchor (behindMark text).getLast? = right := by
  rw [stripped.behindMark_eq]
  cases right with
  | free =>
      rw [Anchor.rightMark, List.append_nil]
      by_contra marked
      exact stripped.unmarkedRight rfl _ marked ⟨_, beforeMark_append_rightMark core⟩
  | word => simp [Anchor.rightMark, rightAnchor]
  | field => simp [Anchor.rightMark, rightAnchor, Byte.space]

theorem IsStripped.core_eq {text core : Bytes} {left right : Anchor}
    (stripped : IsStripped text left core right) : beforeMark (behindMark text) = core := by
  have same : beforeMark (behindMark text) ++ right.rightMark = core ++ right.rightMark := by
    rw [← stripped.behindMark_eq, ← stripped.right_eq]
    exact beforeMark_append_rightMark (behindMark text)
  exact List.append_cancel_right same

theorem leftAnchor_ne_free {anchor : Anchor} (marked : anchor ≠ .free) {text : Bytes}
    (front : anchor.leftMark <+: text) : leftAnchor text.head? ≠ .free := by
  obtain ⟨rest, rfl⟩ := front
  cases anchor with
  | free => exact absurd rfl marked
  | word => exact fun same => nomatch same
  | field => exact fun same => nomatch same

theorem rightAnchor_ne_free {anchor : Anchor} (marked : anchor ≠ .free) {text : Bytes}
    (back : anchor.rightMark <:+ text) : rightAnchor text.getLast? ≠ .free := by
  obtain ⟨rest, rfl⟩ := back
  cases anchor with
  | free => exact absurd rfl marked
  | word => simp [Anchor.rightMark, rightAnchor]
  | field => simp [Anchor.rightMark, rightAnchor, Byte.space]

theorem isStripped (text : Bytes) :
    IsStripped text (leftAnchor text.head?) (beforeMark (behindMark text))
      (rightAnchor (behindMark text).getLast?) where
  whole := by rw [beforeMark_append_rightMark, leftMark_append_behindMark]
  unmarkedLeft free anchor marked front := leftAnchor_ne_free marked front free
  unmarkedRight free anchor marked back := by
    have nothing : beforeMark (behindMark text) = behindMark text := by rw [beforeMark, if_pos free]
    rw [nothing] at back
    exact rightAnchor_ne_free marked back free

/-! ## The pattern of a token -/

theorem ofToken_eq (token : Token) :
    ofToken token =
      let left := leftAnchor token.text.head?
      let text := beforeMark (behindMark token.text)
      let right := rightAnchor (behindMark token.text).getLast?
      if text = [] then ⟨token.text, .free, .free, false⟩
      else if token.isQuoted && isOneWord text then ⟨text, orWord left, orWord right, true⟩
      else ⟨text, left, right, false⟩ := by
  rfl

theorem isOneWord_iff {text : Bytes} :
    isOneWord text = true ↔ Byte.space ∉ text ∧ Byte.tab ∉ text := by
  simp only [isOneWord, Bool.not_eq_true', List.any_eq_false, Bool.or_eq_true, beq_iff_eq, not_or]
  constructor
  · intro plain
    exact ⟨fun member => (plain _ member).1 rfl, fun member => (plain _ member).2 rfl⟩
  · rintro ⟨noSpace, noTab⟩ byte member
    exact ⟨fun same => noSpace (same ▸ member), fun same => noTab (same ▸ member)⟩

theorem Reads.eq_ofToken {token : Token} {pattern : Pattern} (reads : Reads token pattern) :
    pattern = ofToken token := by
  rw [ofToken_eq]
  cases reads with
  | literal marks =>
      have nothing := marks.core_eq
      simp [nothing]
  | marked stripped filled plain =>
      obtain rfl := stripped.core_eq
      have notOne : (token.isQuoted && isOneWord (beforeMark (behindMark token.text))) = false := by
        rw [Bool.and_eq_false_iff]
        refine plain.imp (fun bare => by rw [Token.isQuoted, bare]; rfl) fun blank => ?_
        rw [← Bool.not_eq_true, isOneWord_iff, not_and_or, not_not, not_not]
        exact blank
      simp [filled, notOne, stripped.left_eq, stripped.right_eq]
  | quotedWord stripped filled quoted noSpace noTab =>
      obtain rfl := stripped.core_eq
      have one : (token.isQuoted && isOneWord (beforeMark (behindMark token.text))) = true :=
        Bool.and_eq_true_iff.mpr ⟨Option.isSome_iff_ne_none.mpr quoted,
          isOneWord_iff.mpr ⟨noSpace, noTab⟩⟩
      simp [filled, one, stripped.left_eq, stripped.right_eq]

theorem reads_ofToken (token : Token) : Reads token (ofToken token) := by
  rw [ofToken_eq]
  extract_lets left text right
  have stripped : IsStripped token.text left text right := isStripped token.text
  split
  · next nothing => exact .literal (nothing ▸ stripped)
  · next filled =>
      split
      · next one =>
          obtain ⟨quoted, word⟩ := Bool.and_eq_true_iff.mp one
          obtain ⟨noSpace, noTab⟩ := isOneWord_iff.mp word
          exact .quotedWord stripped filled (Option.isSome_iff_ne_none.mp quoted) noSpace noTab
      · next several =>
          refine .marked stripped filled ?_
          rw [Bool.not_eq_true, Bool.and_eq_false_iff] at several
          refine several.imp (fun bare => ?_) fun blank => ?_
          · simpa [Token.isQuoted] using bare
          · rwa [← Bool.not_eq_true, isOneWord_iff, not_and_or, not_not, not_not] at blank

/-- A token is read in exactly one way, and as the pattern it asks for. -/
theorem reads_iff {token : Token} {pattern : Pattern} :
    Reads token pattern ↔ pattern = ofToken token :=
  ⟨Reads.eq_ofToken, fun same => same ▸ reads_ofToken token⟩

theorem existsUnique_reads (token : Token) : ∃! pattern, Reads token pattern :=
  ⟨ofToken token, reads_ofToken token, fun _ reads => reads.eq_ofToken⟩

theorem Reads.text_ne_nil {token : Token} {pattern : Pattern} (reads : Reads token pattern)
    (filled : token.text ≠ []) : pattern.text ≠ [] := by
  cases reads with
  | literal => exact filled
  | marked _ rest => exact rest
  | quotedWord _ rest => exact rest

end Pattern
end NameSearch
