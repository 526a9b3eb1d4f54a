import NameSearch.Proofs.Query.LetterCase
import NameSearch.Proofs.Search.Loosening

/-!
# Letter case of candidates

A byte that is no capital accepts the bytes it is the lowercase form of.  Fillers and the breaks
between words are no letters.  So neither the comparisons nor the anchors see the letter case of
what they look at, and a text without capitals occurs in a candidate as in its lowercase form.
-/

namespace NameSearch

/-! ## Bytes and texts without capitals -/

theorem Byte.lower_beq {sign : UInt8} (noUpper : isUpper sign = false)
    (noLower : isLower sign = false) (byte : UInt8) : (lower byte == sign) = (byte == sign) := by
  rw [Bool.eq_iff_iff, beq_iff_eq, beq_iff_eq]
  exact lower_eq_iff noUpper noLower byte

theorem Byte.lower_of_isUpper_eq_false {byte : UInt8} (small : isUpper byte = false) :
    lower byte = byte := by
  simp [lower, small]

theorem Byte.isLower_lower {byte : UInt8} (capital : isUpper byte = true) :
    isLower (lower byte) = true := by
  rw [lower, if_pos capital]
  simp [isUpper, isLower, UInt8.le_iff_toNat_le] at capital ⊢
  omega

/-- Whether no capital letter stands in a text. -/
def Bytes.IsSmall (text : Bytes) : Prop := ∀ byte ∈ text, Byte.isUpper byte = false

theorem Bytes.isSmall_lower (text : Bytes) : text.lower.IsSmall := by
  intro byte member
  obtain ⟨before, -, rfl⟩ := List.mem_map.mp member
  exact Byte.isUpper_lower before

/-! ## Anchors -/

namespace Anchor

@[simp]
theorem isBreak_lower (byte : UInt8) : isBreak (Byte.lower byte) = isBreak byte := by
  simp (disch := decide) only [isBreak, Byte.lower_beq]

theorem allows_lower (anchor : Anchor) (neighbour : Option UInt8) :
    anchor.allows (neighbour.map Byte.lower) = anchor.allows neighbour := by
  cases neighbour with
  | none => rfl
  | some byte =>
      cases anchor with
      | free => rfl
      | word => exact isBreak_lower byte
      | field => exact Byte.lower_beq rfl rfl byte

end Anchor

/-! ## Comparisons -/

namespace Comparison

@[simp]
theorem isFiller_lower (byte : UInt8) : isFiller (Byte.lower byte) = isFiller byte := by
  simp (disch := decide) only [isFiller, Byte.lower_beq]

/-- A byte that is no capital accepts just what it is the lowercase form of. -/
theorem accepts_iff_lower_eq {sought : UInt8} (small : Byte.isUpper sought = false)
    (byte : UInt8) : accepts sought byte = true ↔ Byte.lower byte = sought := by
  cases capital : Byte.isUpper byte with
  | false =>
      rw [Byte.lower_of_isUpper_eq_false capital]
      constructor
      · intro accepted
        exact (eq_of_accepts capital accepted).symm
      · rintro rfl
        simp [accepts]
  | true =>
      have lower : Byte.lower byte = byte + 32 := by rw [Byte.lower, if_pos capital]
      have isLower := Byte.isLower_lower capital
      have other : sought ≠ byte := by
        rintro rfl
        rw [small] at capital
        cases capital
      simp only [accepts, Bool.or_eq_true, beq_iff_eq, other, false_or, Bool.and_eq_true]
      constructor
      · rintro ⟨letter, upper⟩
        rw [Byte.upper, if_pos letter] at upper
        rw [lower, ← upper, UInt8.sub_add_cancel]
      · rintro rfl
        refine ⟨isLower, ?_⟩
        rw [Byte.upper, if_pos isLower, lower, UInt8.add_sub_cancel]

theorem accepts_lower {sought : UInt8} (small : Byte.isUpper sought = false) (byte : UInt8) :
    accepts sought (Byte.lower byte) = accepts sought byte := by
  rw [Bool.eq_iff_iff, accepts_iff_lower_eq small, accepts_iff_lower_eq small,
    Byte.lower_of_isUpper_eq_false (Byte.isUpper_lower byte)]

theorem startsWith_lower {text : Bytes} (small : text.IsSmall) (candidate : Bytes) :
    startsWith text candidate.lower = startsWith text candidate := by
  induction text generalizing candidate with
  | nil => rfl
  | cons sought text induction =>
      obtain ⟨here, later⟩ := List.forall_mem_cons.mp small
      cases candidate with
      | nil => rfl
      | cons byte candidate =>
          have following := induction later candidate
          rw [Bytes.lower] at following ⊢
          rw [List.map_cons, startsWith, startsWith, accepts_lower here, following]

theorem looseRest_lower {text : Bytes} (small : text.IsSmall) (candidate : Bytes) :
    looseRest text candidate.lower = looseRest text candidate := by
  induction text generalizing candidate with
  | nil => rfl
  | cons sought text induction =>
      obtain ⟨here, later⟩ := List.forall_mem_cons.mp small
      have alike : isFiller ∘ Byte.lower = isFiller := funext isFiller_lower
      simp only [Bytes.lower] at induction ⊢
      cases filler : isFiller sought with
      | true =>
          cases candidate with
          | nil => rfl
          | cons byte following =>
              have left := induction later (byte :: following)
              rw [List.map_cons] at left ⊢
              simp only [looseRest, filler, if_true, accepts_lower here, induction later following,
                left]
      | false =>
          simp only [looseRest, filler, Bool.false_eq_true, if_false, List.dropWhile_map,
            List.takeWhile_map, alike, List.length_map]
          cases candidate.dropWhile isFiller with
          | nil => rfl
          | cons byte following =>
              simp only [List.map_cons, accepts_lower here, induction later following]

/-- A comparison that does not see the letter case of candidates where it looks for a text. -/
def IgnoresCase (comparison : Comparison) (text : Bytes) : Prop :=
  ∀ candidate offset, comparison (Bytes.lower candidate) offset text = comparison candidate offset text

theorem exact_ignoresCase {text : Bytes} (small : text.IsSmall) : exact.IgnoresCase text := by
  intro candidate offset
  rw [exact, exact, Bytes.lower, ← List.map_drop]
  exact congrArg (if · then text.length else 0) (startsWith_lower small (candidate.drop offset))

theorem loose_ignoresCase {text : Bytes} (small : text.IsSmall) : loose.IgnoresCase text := by
  intro candidate offset
  simp only [loose, Bytes.lower, ← List.map_drop]
  cases text with
  | nil => rfl
  | cons sought later =>
      obtain ⟨here, behind⟩ := List.forall_mem_cons.mp small
      cases candidate.drop offset with
      | nil => rfl
      | cons byte following =>
          have rest := looseRest_lower behind following
          rw [Bytes.lower] at rest
          simp only [List.map_cons, accepts_lower here, rest]

end Comparison

/-! ## Patterns -/

namespace Pattern

theorem fits_lower (pattern : Pattern) (candidate : Bytes) (offset length : Nat) :
    pattern.fits candidate.lower offset length = pattern.fits candidate offset length := by
  have left : pattern.left.allows (if offset = 0 then none else candidate.lower[offset - 1]?) =
      pattern.left.allows (if offset = 0 then none else candidate[offset - 1]?) := by
    split
    · rfl
    · rw [Bytes.lower, List.getElem?_map, Anchor.allows_lower]
  have right : pattern.right.allows candidate.lower[offset + length]? =
      pattern.right.allows candidate[offset + length]? := by
    rw [Bytes.lower, List.getElem?_map, Anchor.allows_lower]
  rw [fits, fits, left, right, Bytes.lower, List.length_map]

theorem occursIn_lower {comparison : Comparison} {pattern : Pattern}
    (ignores : comparison.IgnoresCase pattern.text) (candidate : Bytes) :
    pattern.occursIn comparison candidate.lower = pattern.occursIn comparison candidate := by
  rw [Bool.eq_iff_iff, occursIn_iff, occursIn_iff]
  simp only [fits_lower, ignores candidate]

end Pattern

/-- A term without capitals is contained in candidates as in their lowercase forms. -/
theorem contains_map_lower {token : Token} (small : token.text.IsSmall)
    {given : Option Comparison} (known : given = none ∨ given = some Comparison.loose)
    (candidates : List Bytes) (negated : Bool) :
    contains (candidates.map Bytes.lower) given token negated =
      contains candidates given token negated := by
  have cut : (Pattern.ofToken token).text.IsSmall := fun byte member =>
    small byte ((Pattern.text_ofToken_isInfix token).subset member)
  have ignores : ((Pattern.ofToken token).chosen (if negated then none else given)).IgnoresCase
      (Pattern.ofToken token).text :=
    Pattern.chosen_of_both (motive := fun comparison => comparison.IgnoresCase _)
      (Comparison.exact_ignoresCase cut) (Comparison.loose_ignoresCase cut) known _ negated
  simp only [contains, List.any_map, Function.comp_def, Pattern.occursIn_lower ignores]

end NameSearch
