import NameSearch.Proofs.Bytes.Stopping
import NameSearch.Proofs.Search.Occurrence

/-!
# Searching fields that are joined

The separator byte is the edge of a field to every anchor, and a text without it is never found
across it, neither exactly nor loosely.  Hence a pattern occurs in joined fields exactly when it
occurs in one of them.
-/

namespace NameSearch

namespace Anchor

@[simp]
theorem allows_separator (anchor : Anchor) : anchor.allows (some Byte.separator) = true := by
  cases anchor <;> rfl

@[simp]
theorem allows_none (anchor : Anchor) : anchor.allows none = true := by
  cases anchor <;> rfl

end Anchor

namespace Comparison

/-! ## The comparisons and the separator -/

theorem accepts_separator {sought : UInt8} (other : sought ≠ Byte.separator) :
    accepts sought Byte.separator = false := by
  have unlike : ¬(Byte.isLower sought = true ∧ Byte.upper sought = Byte.separator) := by
    rintro ⟨lower, upper⟩
    rw [Byte.upper, if_pos lower] at upper
    have sum : sought = 33 := by
      rw [← UInt8.sub_add_cancel sought 32, upper]
      rfl
    simp [sum, Byte.isLower] at lower
  simpa [accepts, other] using unlike

theorem startsWith_append_separator {text : Bytes} (plain : Byte.separator ∉ text)
    (front back : Bytes) :
    startsWith text (front ++ Byte.separator :: back) = startsWith text front := by
  induction text generalizing front with
  | nil => rfl
  | cons sought text induction =>
      obtain ⟨other, later⟩ := List.ne_and_not_mem_of_not_mem_cons plain
      cases front with
      | nil => simp [startsWith, accepts_separator other.symm]
      | cons byte front => simp [startsWith, induction later]

theorem startsWith_length {text candidate : Bytes} (starts : startsWith text candidate = true) :
    text.length ≤ candidate.length := by
  induction text generalizing candidate with
  | nil => exact Nat.zero_le _
  | cons sought text induction =>
      cases candidate with
      | nil => simp [startsWith] at starts
      | cons byte candidate =>
          rw [startsWith, Bool.and_eq_true] at starts
          simpa using induction starts.2

theorem looseRest_append_separator {text : Bytes} (plain : Byte.separator ∉ text)
    (front back : Bytes) :
    looseRest text (front ++ Byte.separator :: back) = looseRest text front := by
  induction text generalizing front with
  | nil => rfl
  | cons sought text induction =>
      obtain ⟨other, later⟩ := List.ne_and_not_mem_of_not_mem_cons plain
      have refused := accepts_separator other.symm
      cases filler : isFiller sought with
      | true =>
          cases front with
          | nil => simpa [looseRest, filler, refused] using induction later []
          | cons byte front =>
              have skipped := induction later (byte :: front)
              rw [List.cons_append] at skipped
              simp [looseRest, filler, induction later front, skipped]
      | false =>
          have stops : isFiller Byte.separator = false := rfl
          simp only [looseRest, filler, Bool.false_eq_true, if_false,
            takeWhile_append_stop stops, dropWhile_append_stop stops]
          cases behind : front.dropWhile isFiller with
          | nil => simp [refused]
          | cons byte rest => simp [induction later]

theorem looseRest_le {text candidate : Bytes} {covered : Nat}
    (found : looseRest text candidate = some covered) : covered ≤ candidate.length := by
  induction text generalizing candidate covered with
  | nil => simp [looseRest] at found; omega
  | cons sought text induction =>
      cases filler : isFiller sought with
      | true =>
          cases candidate with
          | nil =>
              simp only [looseRest, filler, if_true] at found
              exact induction found
          | cons byte later =>
              simp only [looseRest, filler, if_true] at found
              split at found
              · obtain ⟨rest, rested, rfl⟩ := Option.map_eq_some_iff.mp found
                simpa using induction rested
              · exact induction found
      | false =>
          have whole := congrArg List.length
            (List.takeWhile_append_dropWhile (p := isFiller) (l := candidate))
          simp only [looseRest, filler, Bool.false_eq_true, if_false] at found
          split at found
          · cases found
          · next byte later behind =>
              split at found
              · obtain ⟨rest, rested, rfl⟩ := Option.map_eq_some_iff.mp found
                have bound := induction rested
                rw [behind, List.length_append, List.length_cons] at whole
                omega
              · cases found

/-! ## Comparisons that stop at separators -/

/-- A comparison that looks from the offset on, and at most up to the next separator. -/
structure StopsAtSeparator (comparison : Comparison) (text : Bytes) : Prop where
  /-- What stands behind a separator is not seen from in front of it. -/
  before : ∀ front back offset, offset ≤ front.length →
    comparison (front ++ Byte.separator :: back) offset text = comparison front offset text
  /-- What stands in front of a separator is not seen from behind it. -/
  behind : ∀ front back offset,
    comparison (front ++ Byte.separator :: back) (front.length + (1 + offset)) text =
      comparison back offset text
  /-- Nothing is covered behind the end. -/
  bounded : ∀ candidate offset,
    comparison candidate offset text ≤ (candidate.drop offset).length

private theorem drop_behind (front back : Bytes) (offset : Nat) :
    (front ++ Byte.separator :: back).drop (front.length + (1 + offset)) = back.drop offset := by
  rw [← List.drop_drop, List.drop_left, Nat.add_comm, List.drop_succ_cons]

theorem exact_stopsAtSeparator {text : Bytes} (plain : Byte.separator ∉ text) :
    StopsAtSeparator exact text where
  before front back offset inside := by
    rw [exact, exact, List.drop_append_of_le_length inside, startsWith_append_separator plain]
  behind front back offset := by
    rw [exact, exact, drop_behind]
  bounded candidate offset := by
    rw [exact]
    split
    · next starts => exact startsWith_length starts
    · exact Nat.zero_le _

theorem loose_stopsAtSeparator {text : Bytes} (plain : Byte.separator ∉ text) :
    StopsAtSeparator loose text where
  before front back offset inside := by
    simp only [loose]
    rw [List.drop_append_of_le_length inside]
    cases text with
    | nil => rfl
    | cons sought later =>
        obtain ⟨other, following⟩ := List.ne_and_not_mem_of_not_mem_cons plain
        cases rest : front.drop offset with
        | nil => simp [accepts_separator other.symm]
        | cons byte rest => simp [looseRest_append_separator following]
  behind front back offset := by
    simp only [loose, drop_behind]
  bounded candidate offset := by
    simp only [loose]
    split
    · next sought later byte following behind =>
        rw [behind, List.length_cons]
        split
        · cases found : looseRest later following with
          | none => exact Nat.zero_le _
          | some covered => exact Nat.succ_le_succ (looseRest_le found)
        · exact Nat.zero_le _
    · exact Nat.zero_le _

end Comparison

/-! ## Occurrences in joined fields -/

namespace Pattern

/-- What is covered in front of a separator fits there as it would at the end. -/
theorem fits_before_separator (pattern : Pattern) (front back : Bytes) {offset length : Nat}
    (inside : offset + length ≤ front.length) :
    pattern.fits (front ++ Byte.separator :: back) offset length =
      pattern.fits front offset length := by
  have left : (if offset = 0 then none else (front ++ Byte.separator :: back)[offset - 1]?) =
      if offset = 0 then none else front[offset - 1]? := by
    split
    · rfl
    · exact List.getElem?_append_left (by omega)
  have right : pattern.right.allows (front ++ Byte.separator :: back)[offset + length]? =
      pattern.right.allows front[offset + length]? := by
    rcases Nat.lt_or_eq_of_le inside with within | atEnd
    · rw [List.getElem?_append_left within]
    · simp [atEnd]
  have bounds : offset + length ≤ (front ++ Byte.separator :: back).length := by
    rw [List.length_append]
    omega
  simp only [fits, left, right, bounds, inside]

theorem fits_behind_separator (pattern : Pattern) (front back : Bytes) (offset length : Nat) :
    pattern.fits (front ++ Byte.separator :: back) (front.length + (1 + offset)) length =
      pattern.fits back offset length := by
  have behind : ∀ index,
      (front ++ Byte.separator :: back)[front.length + (1 + index)]? = back[index]? := by
    intro index
    rw [List.getElem?_append_right (by omega), Nat.add_sub_cancel_left, Nat.add_comm,
      List.getElem?_cons_succ]
  have left : pattern.left.allows
        (front ++ Byte.separator :: back)[front.length + (1 + offset) - 1]? =
      pattern.left.allows (if offset = 0 then none else back[offset - 1]?) := by
    cases offset with
    | zero => simp
    | succ offset =>
        have same : front.length + (1 + (offset + 1)) - 1 = front.length + (1 + offset) := by omega
        rw [same, behind]
        rfl
  have right : (front ++ Byte.separator :: back)[front.length + (1 + offset) + length]? =
      back[offset + length]? := by
    rw [Nat.add_assoc, Nat.add_assoc, behind]
  have bounds : front.length + (1 + offset) + length ≤
      (front ++ Byte.separator :: back).length ↔ offset + length ≤ back.length := by
    rw [List.length_append, List.length_cons]
    omega
  have notFirst : front.length + (1 + offset) ≠ 0 := by omega
  simp only [fits, if_neg notFirst, left, right, bounds]

variable {pattern : Pattern} {comparison : Comparison}

theorem occursIn_append_separator (stops : comparison.StopsAtSeparator pattern.text)
    (front back : Bytes) :
    pattern.occursIn comparison (front ++ Byte.separator :: back) =
      (pattern.occursIn comparison front || pattern.occursIn comparison back) := by
  rw [Bool.eq_iff_iff, Bool.or_eq_true, occursIn_iff, occursIn_iff, occursIn_iff]
  have inFront : ∀ offset, offset ≤ front.length →
      pattern.fits (front ++ Byte.separator :: back) offset
          (comparison (front ++ Byte.separator :: back) offset pattern.text) =
        pattern.fits front offset (comparison front offset pattern.text) := by
    intro offset inside
    have bound := stops.bounded front offset
    rw [List.length_drop] at bound
    rw [stops.before front back offset inside]
    exact fits_before_separator pattern front back (by omega)
  constructor
  · rintro ⟨offset, fit⟩
    rcases Nat.lt_or_ge front.length offset with behind | inside
    · obtain ⟨rest, rfl⟩ := Nat.exists_eq_add_of_lt behind
      rw [Nat.add_assoc, Nat.add_comm rest, stops.behind, fits_behind_separator] at fit
      exact .inr ⟨rest, fit⟩
    · rw [inFront offset inside] at fit
      exact .inl ⟨offset, fit⟩
  · rintro (⟨offset, fit⟩ | ⟨offset, fit⟩)
    · refine ⟨offset, ?_⟩
      have bounded := (fits_iff ..).mp fit
      rwa [inFront offset (by omega)]
    · refine ⟨front.length + (1 + offset), ?_⟩
      rwa [stops.behind, fits_behind_separator]

/-- A pattern occurs in joined fields exactly when it occurs in one of them. -/
theorem occursIn_intercalate (stops : comparison.StopsAtSeparator pattern.text)
    (fields : List Bytes) :
    pattern.occursIn comparison ([Byte.separator].intercalate fields) =
      fields.any (pattern.occursIn comparison) := by
  induction fields with
  | nil => rfl
  | cons field later induction =>
      cases later with
      | nil => simp [List.intercalate_singleton]
      | cons next later =>
          rw [List.intercalate_cons_cons, List.append_assoc, List.singleton_append,
            occursIn_append_separator stops, induction, ← List.any_cons]

end Pattern
end NameSearch
