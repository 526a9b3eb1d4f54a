import NameSearch.Proofs.Search.Occurrence

/-!
# Exact occurrences are loose ones

Where a text stands byte by byte, the loose comparison has nothing to pass over and covers the same
bytes.  So it leaves the same neighbours to the anchors, and every term that is found exactly is
found loosely as well.
-/

namespace NameSearch

namespace Comparison

theorem accepts_iff {sought byte : UInt8} :
    accepts sought byte = true ↔
      sought = byte ∨ (Byte.isLower sought = true ∧ Byte.upper sought = byte) := by
  rw [accepts, Bool.or_eq_true, beq_iff_eq, Bool.and_eq_true, beq_iff_eq]

theorem eq_of_accepts {sought byte : UInt8} (noUpper : Byte.isUpper byte = false)
    (accepted : accepts sought byte = true) : sought = byte := by
  rcases accepts_iff.mp accepted with same | ⟨lower, upper⟩
  · exact same
  · rw [Byte.upper, if_pos lower] at upper
    subst upper
    simp [Byte.isUpper, Byte.isLower, UInt8.le_iff_toNat_le, UInt8.toNat_sub] at lower noUpper
    omega

theorem isUpper_of_isFiller {byte : UInt8} (filler : isFiller byte = true) :
    Byte.isUpper byte = false := by
  simp only [isFiller, Bool.or_eq_true, beq_iff_eq] at filler
  rcases filler with (((rfl | rfl) | rfl) | rfl) | rfl <;> rfl

theorem isFiller_of_accepts {sought byte : UInt8} (accepted : accepts sought byte = true)
    (letter : isFiller sought = false) : isFiller byte = false := by
  cases filler : isFiller byte with
  | false => rfl
  | true =>
      have same := eq_of_accepts (isUpper_of_isFiller filler) accepted
      rw [same, filler] at letter
      exact letter

theorem looseRest_of_startsWith {text candidate : Bytes}
    (starts : startsWith text candidate = true) :
    looseRest text candidate = some text.length := by
  induction text generalizing candidate with
  | nil => rfl
  | cons sought text induction =>
      cases candidate with
      | nil => cases starts
      | cons byte later =>
          obtain ⟨accepted, following⟩ := Bool.and_eq_true_iff.mp starts
          cases filler : isFiller sought with
          | true => simp [looseRest, filler, accepted, induction following]
          | false =>
              have plain := isFiller_of_accepts accepted filler
              simp [looseRest, filler, plain, accepted, induction following]

/-- Where the exact comparison covers something, the loose one covers the same. -/
theorem loose_eq_exact {candidate text : Bytes} {offset : Nat}
    (found : exact candidate offset text ≠ 0) :
    loose candidate offset text = exact candidate offset text := by
  cases starts : startsWith text (candidate.drop offset) with
  | false =>
      rw [exact, starts] at found
      exact absurd rfl found
  | true =>
      rw [exact, if_pos starts]
      simp only [loose]
      cases text with
      | nil => rfl
      | cons sought later =>
          cases rest : candidate.drop offset with
          | nil =>
              rw [rest] at starts
              cases starts
          | cons byte following =>
              rw [rest] at starts
              obtain ⟨accepted, behind⟩ := Bool.and_eq_true_iff.mp starts
              simp [accepted, looseRest_of_startsWith behind]

end Comparison

theorem Pattern.occursIn_loose {pattern : Pattern} {candidate : Bytes}
    (occurs : pattern.occursIn Comparison.exact candidate = true) :
    pattern.occursIn Comparison.loose candidate = true := by
  rw [occursIn_iff] at occurs ⊢
  obtain ⟨offset, fit⟩ := occurs
  obtain ⟨covered, -⟩ := (fits_iff ..).mp fit
  exact ⟨offset, by rwa [Comparison.loose_eq_exact covered]⟩

theorem contains_loose {candidates : List Bytes} {token : Token}
    (found : contains candidates none token false = true) :
    contains candidates (some Comparison.loose) token false = true := by
  rw [contains, List.any_eq_true] at found ⊢
  obtain ⟨candidate, member, occurs⟩ := found
  refine ⟨candidate, member, ?_⟩
  cases word : (Pattern.ofToken token).isQuotedWord with
  | true => simpa [Pattern.chosen, word] using occurs
  | false =>
      have exactly : (Pattern.ofToken token).occursIn Comparison.exact candidate = true := by
        simpa [Pattern.chosen, word] using occurs
      simpa [Pattern.chosen, word] using Pattern.occursIn_loose exactly

end NameSearch
