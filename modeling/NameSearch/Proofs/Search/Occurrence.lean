import NameSearch.Query.Evaluation

/-!
# Occurrences of a pattern

A search visits candidates and offsets in a fixed order and stops early.  Its answer does not depend
on that order: a pattern is found exactly when it occurs at some offset of some candidate, by the
comparison that the pattern and the pending negation leave in force.
-/

namespace NameSearch
namespace Pattern

theorem text_ofToken_isInfix (token : Token) : (ofToken token).text <:+: token.text := by
  unfold ofToken
  extract_lets left afterLeft right text
  have cutLeft : afterLeft <:+ token.text := by
    simp only [afterLeft]
    split
    · exact List.suffix_rfl
    · exact List.tail_suffix token.text
  have cutRight : text <+: afterLeft := by
    simp only [text]
    split
    · exact List.prefix_rfl
    · exact List.dropLast_prefix afterLeft
  have cut : text <:+: token.text := cutRight.isInfix.trans cutLeft.isInfix
  split
  · exact List.infix_rfl
  · split
    · exact cut
    · exact cut

theorem fits_iff (pattern : Pattern) (candidate : Bytes) (offset length : Nat) :
    pattern.fits candidate offset length = true ↔
      length ≠ 0 ∧ offset + length ≤ candidate.length ∧
        pattern.left.allows (if offset = 0 then none else candidate[offset - 1]?) = true ∧
        pattern.right.allows candidate[offset + length]? = true := by
  simp [fits, and_assoc]

/-- Whether the text, as a comparison measures it, occurs in a candidate and fits there. -/
def occursIn (comparison : Comparison) (pattern : Pattern) (candidate : Bytes) : Bool :=
  (List.range candidate.length).any fun offset =>
    pattern.fits candidate offset (comparison candidate offset pattern.text)

/-- No offset has to be excluded: an occurrence that fits starts inside the candidate. -/
theorem occursIn_iff {comparison : Comparison} {pattern : Pattern} {candidate : Bytes} :
    pattern.occursIn comparison candidate = true ↔
      ∃ offset,
        pattern.fits candidate offset (comparison candidate offset pattern.text) = true := by
  simp only [occursIn, List.any_eq_true, List.mem_range]
  constructor
  · rintro ⟨offset, -, fit⟩
    exact ⟨offset, fit⟩
  · rintro ⟨offset, fit⟩
    obtain ⟨positive, bounded, -⟩ := (fits_iff ..).mp fit
    exact ⟨offset, by omega, fit⟩

/-- The exact search leaves out only offsets behind which the text does not fit. -/
theorem found_searchExactly (pattern : Pattern) (candidate : Bytes) :
    (pattern.searchExactly candidate).found = pattern.occursIn Comparison.exact candidate := by
  rw [Bool.eq_iff_iff, occursIn_iff]
  simp only [searchExactly, List.any_eq_true, List.mem_range]
  constructor
  · rintro ⟨offset, -, fit⟩
    exact ⟨offset, fit⟩
  · rintro ⟨offset, fit⟩
    refine ⟨offset, ?_, fit⟩
    obtain ⟨positive, bounded, -⟩ := (fits_iff ..).mp fit
    rw [Comparison.exact] at positive bounded
    split at positive
    · next starts =>
        rw [if_pos starts] at bounded
        omega
    · exact absurd rfl positive

private theorem length_takeWhile_lt_iff {α : Type} (keep : α → Bool) (list : List α) :
    (list.takeWhile keep).length < list.length ↔ ∃ element ∈ list, keep element = false := by
  induction list with
  | nil => simp
  | cons first list induction =>
      cases kept : keep first <;> simp [kept, induction]

theorem found_searchBy (comparison : Comparison) (pattern : Pattern) (candidate : Bytes) :
    (pattern.searchBy comparison candidate).found = pattern.occursIn comparison candidate := by
  rw [Bool.eq_iff_iff]
  simp only [searchBy, decide_eq_true_eq, length_takeWhile_lt_iff, Bool.not_eq_false',
    occursIn, List.any_eq_true]

/-- The comparison that decides a pattern: the given one, except for quoted words. -/
def chosen (given : Option Comparison) (pattern : Pattern) : Comparison :=
  if pattern.isQuotedWord then Comparison.exact else given.getD Comparison.exact

/-- What holds of both comparisons that come with the library holds of the one that decides. -/
theorem chosen_of_both {motive : Comparison → Prop} (ofExact : motive Comparison.exact)
    (ofLoose : motive Comparison.loose) {given : Option Comparison}
    (known : given = none ∨ given = some Comparison.loose) (pattern : Pattern) (negated : Bool) :
    motive (pattern.chosen (if negated then none else given)) := by
  rw [chosen]
  split
  · exact ofExact
  · cases negated with
    | true => exact ofExact
    | false =>
        rcases known with rfl | rfl
        · exact ofExact
        · exact ofLoose

theorem found_searchIn (given : Option Comparison) (pattern : Pattern) (candidate : Bytes) :
    (pattern.searchIn given candidate).found =
      pattern.occursIn (pattern.chosen given) candidate := by
  cases given with
  | none => simpa [searchIn, chosen] using found_searchExactly pattern candidate
  | some comparison =>
      cases quoted : pattern.isQuotedWord with
      | false => simpa [searchIn, chosen, quoted] using found_searchBy comparison pattern candidate
      | true => simpa [searchIn, chosen, quoted] using found_searchExactly pattern candidate

theorem found_search (given : Option Comparison) (pattern : Pattern) (candidates : List Bytes) :
    (pattern.search given candidates).found =
      candidates.any (pattern.occursIn (pattern.chosen given)) := by
  induction candidates with
  | nil => rfl
  | cons candidate later induction =>
      rw [search, List.any_cons, ← found_searchIn, ← induction]
      cases here : (pattern.searchIn given candidate).found <;> simp [here]

end Pattern

/-- Whether some candidate contains a term.  A given comparison is used unless the term is directly
negated or a quoted word. -/
def contains (candidates : List Bytes) (given : Option Comparison) (token : Token)
    (negated : Bool) : Bool :=
  let pattern := Pattern.ofToken token
  candidates.any (pattern.occursIn (pattern.chosen (if negated then none else given)))

/-- What a walk learns about a term is whether some candidate contains it. -/
@[simp]
theorem found_lookup (candidates : List Bytes) (given : Option Comparison) (token : Token)
    (negated : Bool) :
    (lookup candidates given token negated).found = contains candidates given token negated :=
  Pattern.found_search ..

end NameSearch
