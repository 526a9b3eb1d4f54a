import NameSearch.Proofs.Search.Occurrence

/-!
# Questions put to a comparison

A search by a given comparison asks it about the candidates in order, up to the first that holds
the pattern, and about the offsets of each in order, up to the first occurrence that fits.  A search
that compares exactly asks nothing.
-/

namespace NameSearch

/-- The elements up to and including the first that satisfies `p`; all of them if none does. -/
def throughFirst {α : Type} (p : α → Bool) : List α → List α
  | [] => []
  | first :: later => if p first then [first] else first :: throughFirst p later

theorem take_length_takeWhile_add_one {α : Type} (p : α → Bool) (list : List α) :
    list.take ((list.takeWhile (!p ·)).length + 1) = throughFirst p list := by
  induction list with
  | nil => rfl
  | cons first later induction =>
      cases stops : p first with
      | true => simp [throughFirst, stops]
      | false => simp [throughFirst, stops, induction]

namespace Pattern

/-- The questions that are asked about one candidate. -/
def probesIn (comparison : Comparison) (pattern : Pattern) (candidate : Bytes) : List Probe :=
  let fitsAt := fun offset =>
    pattern.fits candidate offset (comparison candidate offset pattern.text)
  (throughFirst fitsAt (List.range candidate.length)).map fun offset =>
    ⟨candidate, offset, pattern.text⟩

/-- The questions that are asked about some candidates. -/
def probes (comparison : Comparison) (pattern : Pattern) (candidates : List Bytes) : List Probe :=
  (throughFirst (pattern.occursIn comparison) candidates).flatMap (pattern.probesIn comparison)

theorem probes_searchBy (comparison : Comparison) (pattern : Pattern) (candidate : Bytes) :
    (pattern.searchBy comparison candidate).probes = pattern.probesIn comparison candidate := by
  simp only [searchBy, probesIn, ← take_length_takeWhile_add_one]

theorem probes_search (comparison : Comparison) {pattern : Pattern}
    (asked : pattern.isQuotedWord = false) (candidates : List Bytes) :
    (pattern.search (some comparison) candidates).probes =
      pattern.probes comparison candidates := by
  rw [probes]
  induction candidates with
  | nil => rfl
  | cons candidate later induction =>
      have here : pattern.searchIn (some comparison) candidate =
          pattern.searchBy comparison candidate := by simp [searchIn, asked]
      rw [search, here, found_searchBy, throughFirst]
      cases occurs : pattern.occursIn comparison candidate with
      | true => simp [probes_searchBy]
      | false => simp [probes_searchBy, induction]

theorem probes_search_exactly {given : Option Comparison} {pattern : Pattern}
    (unasked : given = none ∨ pattern.isQuotedWord = true) (candidates : List Bytes) :
    (pattern.search given candidates).probes = [] := by
  induction candidates with
  | nil => rfl
  | cons candidate later induction =>
      have here : (pattern.searchIn given candidate).probes = [] := by
        rcases unasked with rfl | quoted
        · rfl
        · cases given <;> simp [searchIn, quoted, searchExactly]
      rw [search]
      cases (pattern.searchIn given candidate).found with
      | true => exact here
      | false => simp [here, induction]

end Pattern

/-- What is asked about a term: nothing where it is directly negated or a quoted word. -/
theorem probes_lookup (candidates : List Bytes) (comparison : Comparison) (token : Token)
    (negated : Bool) :
    (lookup candidates (some comparison) token negated).probes =
      if !negated && !(Pattern.ofToken token).isQuotedWord then
        (Pattern.ofToken token).probes comparison candidates
      else [] := by
  cases negated with
  | true => simp [lookup, Pattern.probes_search_exactly]
  | false =>
      cases quoted : (Pattern.ofToken token).isQuotedWord with
      | true => simp [lookup, Pattern.probes_search_exactly, quoted]
      | false => simp [lookup, Pattern.probes_search, quoted]

end NameSearch
