import NameSearch.Proofs.Search.Fillers

/-!
# Occurrences and their surroundings

An occurrence cuts a candidate into what stands before it, what it covers and what stands after it.
The search looks at offsets and at single bytes beside them; it finds a pattern exactly where the
candidate can be cut in this way.
-/

namespace NameSearch

/-! ## What the exact comparison covers -/

namespace Comparison

theorem startsWith_iff {text candidate : Bytes} :
    startsWith text candidate = true ↔
      ∃ span after, candidate = span ++ after ∧ Accepts text span := by
  induction text generalizing candidate with
  | nil => exact ⟨fun _ => ⟨[], candidate, rfl, .nil⟩, fun _ => rfl⟩
  | cons sought text induction =>
      constructor
      · intro starts
        cases candidate with
        | nil => cases starts
        | cons byte candidate =>
            obtain ⟨accepted, following⟩ := Bool.and_eq_true_iff.mp starts
            obtain ⟨span, after, rfl, later⟩ := induction.mp following
            exact ⟨byte :: span, after, rfl, .cons accepted later⟩
      · rintro ⟨span, after, rfl, covered⟩
        obtain ⟨byte, span, accepted, later, rfl⟩ := List.forall₂_cons_left_iff.mp covered
        exact Bool.and_eq_true_iff.mpr ⟨accepted, induction.mpr ⟨span, after, rfl, later⟩⟩

theorem exact_eq_length_iff {text before span after : Bytes} (filled : span ≠ []) :
    exact (before ++ (span ++ after)) before.length text = span.length ↔ Accepts text span := by
  rw [exact, List.drop_left]
  constructor
  · intro covered
    split at covered
    · next starts =>
        obtain ⟨initial, rest, cut, accepted⟩ := startsWith_iff.mp starts
        have long : span.length = initial.length := covered.symm.trans accepted.length_eq
        rwa [(List.append_inj cut long).1]
    · exact absurd (List.length_eq_zero_iff.mp covered.symm) filled
  · intro accepted
    rw [if_pos (startsWith_iff.mpr ⟨span, after, rfl, accepted⟩), accepted.length_eq]

end Comparison

/-! ## Occurrences -/

namespace Pattern

/-- The comparison that is asked about a pattern; a quoted word asks none. -/
def inUse (given : Option Comparison) (pattern : Pattern) : Option Comparison :=
  if pattern.isQuotedWord then none else given

theorem chosen_eq (given : Option Comparison) (pattern : Pattern) :
    pattern.chosen given = (pattern.inUse given).getD Comparison.exact := by
  rw [chosen, inUse]
  split <;> rfl

/-- What an occurrence covers: bytes that the text accepts in order or, where a comparison is in
use, as many bytes as it answers. -/
def Covers (asked : Option Comparison) (text candidate before span : Bytes) : Prop :=
  match asked with
  | none => Comparison.Accepts text span
  | some comparison => span.length = comparison candidate before.length text

/-- An occurrence of a pattern, with what stands before and after it. -/
structure IsOccurrence (asked : Option Comparison) (pattern : Pattern)
    (candidate before span after : Bytes) : Prop where
  /-- The three parts are the candidate. -/
  whole : candidate = before ++ (span ++ after)
  /-- An occurrence is not empty. -/
  filled : span ≠ []
  /-- The text covers the span. -/
  covered : Covers asked pattern.text candidate before span
  /-- Nothing stands before the span, or the left anchor allows the last byte there. -/
  left : before = [] ∨ ∃ byte, before.getLast? = some byte ∧ pattern.left.allows (some byte) = true
  /-- Nothing stands after the span, or the right anchor allows the first byte there. -/
  right : after = [] ∨ ∃ byte, after.head? = some byte ∧ pattern.right.allows (some byte) = true

end Pattern

/-- An anchor allows the edge of the candidate, and there is an edge where no byte is. -/
theorem Anchor.allows_iff {anchor : Anchor} {neighbour : Option UInt8} :
    anchor.allows neighbour = true ↔
      neighbour = none ∨ ∃ byte, neighbour = some byte ∧ anchor.allows (some byte) = true := by
  cases neighbour with
  | none => simp
  | some byte => simp

namespace Pattern

variable {pattern : Pattern}

theorem fits_append_iff {before span after : Bytes} :
    pattern.fits (before ++ (span ++ after)) before.length span.length = true ↔
      span ≠ [] ∧ pattern.left.allows before.getLast? = true ∧
        pattern.right.allows after.head? = true := by
  have left : (if before.length = 0 then none
      else (before ++ (span ++ after))[before.length - 1]?) = before.getLast? := by
    rw [List.getLast?_eq_getElem?]
    split
    · next empty => simp [List.length_eq_zero_iff.mp empty]
    · next filled => exact List.getElem?_append_left (by omega)
  have right : (before ++ (span ++ after))[before.length + span.length]? = after.head? := by
    rw [← List.append_assoc, ← List.length_append, List.head?_eq_getElem?,
      List.getElem?_append_right (Nat.le_refl _), Nat.sub_self]
  have inside : before.length + span.length ≤ (before ++ (span ++ after)).length := by
    simp only [List.length_append]
    omega
  rw [fits_iff, left, right]
  simp only [inside, true_and, ne_eq, List.length_eq_zero_iff]

/-- A pattern occurs where a candidate can be cut so that the comparison covers a span that
fits. -/
theorem occursIn_iff_exists_span {comparison : Comparison} {candidate : Bytes} :
    pattern.occursIn comparison candidate = true ↔
      ∃ before span after, candidate = before ++ (span ++ after) ∧
        span.length = comparison candidate before.length pattern.text ∧
        pattern.fits candidate before.length span.length = true := by
  rw [occursIn_iff]
  constructor
  · rintro ⟨offset, fit⟩
    obtain ⟨-, bounded, -⟩ := (fits_iff ..).mp fit
    generalize covered : comparison candidate offset pattern.text = length at fit bounded
    have front : (candidate.take offset).length = offset := by
      rw [List.length_take]
      omega
    have middle : ((candidate.drop offset).take length).length = length := by
      rw [List.length_take, List.length_drop]
      omega
    refine ⟨candidate.take offset, (candidate.drop offset).take length,
      (candidate.drop offset).drop length, ?_, ?_, ?_⟩
    · rw [List.take_append_drop, List.take_append_drop]
    · rw [front, middle, covered]
    · rwa [front, middle]
  · rintro ⟨before, span, after, -, covered, fit⟩
    exact ⟨before.length, covered ▸ fit⟩

theorem occursIn_chosen_iff (given : Option Comparison) (pattern : Pattern) (candidate : Bytes) :
    pattern.occursIn (pattern.chosen given) candidate = true ↔
      ∃ before span after,
        pattern.IsOccurrence (pattern.inUse given) candidate before span after := by
  have covers_iff : ∀ before span after, candidate = before ++ (span ++ after) → span ≠ [] →
      (span.length = pattern.chosen given candidate before.length pattern.text ↔
        Covers (pattern.inUse given) pattern.text candidate before span) := by
    rintro before span after rfl filled
    rw [chosen_eq]
    cases pattern.inUse given with
    | none => exact eq_comm.trans (Comparison.exact_eq_length_iff filled)
    | some comparison => rfl
  rw [occursIn_iff_exists_span]
  constructor
  · rintro ⟨before, span, after, rfl, covered, fit⟩
    obtain ⟨filled, left, right⟩ := fits_append_iff.mp fit
    refine ⟨before, span, after, rfl, filled, (covers_iff _ _ _ rfl filled).mp covered, ?_, ?_⟩
    · exact (Anchor.allows_iff.mp left).imp_left List.getLast?_eq_none_iff.mp
    · exact (Anchor.allows_iff.mp right).imp_left List.head?_eq_none_iff.mp
  · rintro ⟨before, span, after, rfl, filled, covered, left, right⟩
    refine ⟨before, span, after, rfl, (covers_iff _ _ _ rfl filled).mpr covered, ?_⟩
    refine fits_append_iff.mpr ⟨filled, ?_, ?_⟩
    · exact Anchor.allows_iff.mpr (left.imp_left List.getLast?_eq_none_iff.mpr)
    · exact Anchor.allows_iff.mpr (right.imp_left List.head?_eq_none_iff.mpr)

end Pattern
end NameSearch
