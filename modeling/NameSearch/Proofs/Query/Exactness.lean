import NameSearch.Proofs.Query.Searching

/-!
# Terms about which a comparison has no say

A directly negated term and a quoted word are compared exactly, whatever comparison is given.  A
query of such terms is evaluated as if none were given.  The negation in front of a group does not
reach the terms in it, so that about them the comparison decides.
-/

namespace NameSearch

/-! ## Answers that agree on the terms of a query -/

/-- Two ways of telling whether terms are found tell the same at a site. -/
def Site.Agrees (contains other : Token → Bool → Bool) (site : Site) : Prop :=
  contains site.token site.negated = other site.token site.negated

section Agreeing

variable {contains other : Token → Bool → Bool}

mutual

theorem Item.holds_congr {around : List (Bool × Standing)} {standing : Standing} :
    ∀ {item : Item}, (∀ site ∈ item.sites around standing, site.Agrees contains other) →
      item.holds contains = item.holds other
  | .term negated token, agree => by
      have here : contains token negated = other token negated :=
        agree ⟨token, negated, standing, around⟩ List.mem_cons_self
      rw [Item.holds, Item.holds, here]
  | .group negated branches, agree => by
      rw [Item.sites] at agree
      rw [Item.holds, Item.holds, Group.holds_congr agree]

theorem Branch.allHold_congr {around : List (Bool × Standing)} {earlier : List Branch}
    {before : List Item} :
    ∀ {branch : Branch},
      (∀ site ∈ branch.sitesFrom around earlier before, site.Agrees contains other) →
        branch.allHold contains = branch.allHold other
  | [], _ => rfl
  | item :: items, agree => by
      rw [Branch.sitesFrom, List.forall_mem_append] at agree
      obtain ⟨inItem, inItems⟩ := agree
      rw [Branch.allHold, Branch.allHold, Item.holds_congr inItem, Branch.allHold_congr inItems]

/-- What holds of a group depends on what is told at its sites alone. -/
theorem Group.holds_congr {around : List (Bool × Standing)} {earlier : List Branch} :
    ∀ {group : Group}, (∀ site ∈ group.sitesFrom around earlier, site.Agrees contains other) →
      group.holds contains = group.holds other
  | [], _ => rfl
  | branch :: later, agree => by
      rw [Group.sitesFrom, List.forall_mem_append] at agree
      obtain ⟨inBranch, inLater⟩ := agree
      rw [Group.holds, Group.holds, Branch.allHold_congr inBranch, Group.holds_congr inLater]

end

end Agreeing

theorem found_congr_sites {candidates : List Bytes} {given given' : Option Comparison}
    {tokens : List Token}
    (agree : ∀ site ∈ (Group.ofTokens tokens).sites,
      site.Agrees (contains candidates given) (contains candidates given')) :
    (evaluate candidates given tokens).found = (evaluate candidates given' tokens).found := by
  rw [evaluate, evaluate, Walk.answer_run (found_lookup candidates given),
    Walk.answer_run (found_lookup candidates given'), Group.holds_congr agree]

theorem probes_eq_nil {candidates : List Bytes} {given : Option Comparison} {tokens : List Token}
    (unasked : ∀ site ∈ (Group.ofTokens tokens).sites,
      (lookup candidates given site.token site.negated).probes = []) :
    (evaluate candidates given tokens).probes = [] := by
  rw [probes_eq_asked, ← Group.searchedAt_sites, Walk.asked, List.flatMap_eq_nil_iff]
  intro signed searched
  obtain ⟨site, kept, rfl⟩ := List.mem_map.mp searched
  exact unasked site (List.mem_filter.mp kept).1

/-! ## Terms that are compared exactly -/

/-- Whether the term at a site is compared exactly whatever comparison is given: it is directly
negated or a quoted word. -/
def Site.isExact (site : Site) : Bool := site.negated || (Pattern.ofToken site.token).isQuotedWord

theorem Site.agrees_of_isExact {site : Site} (exactly : site.isExact = true)
    (candidates : List Bytes) (comparison : Comparison) :
    site.Agrees (contains candidates (some comparison)) (contains candidates none) := by
  rcases Bool.or_eq_true_iff.mp exactly with negated | quoted
  · simp [Agrees, contains, negated]
  · simp [Agrees, contains, Pattern.chosen, quoted]

theorem Site.probes_of_isExact {site : Site} (exactly : site.isExact = true)
    (candidates : List Bytes) (comparison : Comparison) :
    (lookup candidates (some comparison) site.token site.negated).probes = [] := by
  rw [probes_lookup, if_neg]
  rcases Bool.or_eq_true_iff.mp exactly with negated | quoted
  · simp [negated]
  · simp [quoted]

/-! ## Negation of a term and of a group around it -/

section Negating

variable {token : Token} (term : token.role = .term)

/-- The tokens of `NOT t`. -/
def negatedTerm (token : Token) : List Token := [.bare Keyword.not.text, token]

/-- The tokens of `NOT ( t )`. -/
def negatedGroup (token : Token) : List Token :=
  [.bare Keyword.not.text, .bare Token.openingText, token, .bare Token.closingText]

include term

theorem found_negatedTerm (candidates : List Bytes) (given : Option Comparison) :
    (evaluate candidates given (negatedTerm token)).found =
      !contains candidates none token false := by
  have tree : Group.ofTokens (negatedTerm token) = [[.term true token]] := by
    rw [Group.ofTokens, negatedTerm, Rest.ofTokens_not rfl, Rest.ofTokens_term term]
    rfl
  rw [evaluate, Walk.answer_run (found_lookup candidates given), tree]
  simp [Group.isVoid, Group.holds, Branch.allHold, Item.holds, contains]

theorem found_negatedGroup (candidates : List Bytes) (given : Option Comparison) :
    (evaluate candidates given (negatedGroup token)).found =
      !contains candidates given token false := by
  have tree : Group.ofTokens (negatedGroup token) = [[.group true [[.term false token]]]] := by
    rw [Group.ofTokens, negatedGroup, Rest.ofTokens_not rfl, Rest.ofTokens_opening rfl,
      Rest.ofTokens_term term, Rest.ofTokens_closing rfl]
    rfl
  rw [evaluate, Walk.answer_run (found_lookup candidates given), tree]
  simp [Group.isVoid, Group.holds, Branch.allHold, Item.holds]

end Negating

/-! ## Evaluation under any comparison -/

/-- A query of directly negated terms and quoted words is answered under any comparison as under
none, and the comparison is not asked.  Where other terms stand in it, it is so answered as long as
the comparison finds just those of them that are found exactly.  These others include terms of
negated groups: `NOT ( t )` is answered as `NOT t` only where the comparison finds `t` just if it is
found exactly. -/
theorem found_as_exactly (candidates : List Bytes) (comparison : Comparison) :
    (∀ tokens, (∀ site ∈ (Group.ofTokens tokens).sites, site.isExact = true) →
      (evaluate candidates (some comparison) tokens).found =
          (evaluate candidates none tokens).found ∧
        (evaluate candidates (some comparison) tokens).probes = []) ∧
    (∀ tokens,
      (∀ site ∈ (Group.ofTokens tokens).sites, site.isExact = false →
        contains candidates (some comparison) site.token false =
          contains candidates none site.token false) →
      (evaluate candidates (some comparison) tokens).found =
        (evaluate candidates none tokens).found) ∧
    ∀ token, token.role = .term →
      ((evaluate candidates (some comparison) (negatedGroup token)).found =
          (evaluate candidates (some comparison) (negatedTerm token)).found ↔
        contains candidates (some comparison) token false =
          contains candidates none token false) := by
  refine ⟨fun tokens exactly => ⟨?_, ?_⟩, fun tokens agree => ?_, fun token term => ?_⟩
  · apply found_congr_sites
    intro site member
    exact Site.agrees_of_isExact (exactly site member) candidates comparison
  · apply probes_eq_nil
    intro site member
    exact Site.probes_of_isExact (exactly site member) candidates comparison
  · apply found_congr_sites
    intro site member
    cases exactly : site.isExact with
    | true => exact Site.agrees_of_isExact exactly candidates comparison
    | false =>
        have plain : site.negated = false := (Bool.or_eq_false_iff.mp exactly).1
        rw [Site.Agrees, plain]
        exact agree site member exactly
  · rw [found_negatedGroup term, found_negatedTerm term, Bool.not_inj_iff]

/-- In `NOT ( NOT proq3 "pro-q" )` the loose comparison has nothing to tell of `Pro-Q 3`, and `3` is
found there by both comparisons. -/
theorem found_as_exactly_words :
    let bare := fun text => Token.bare (Bytes.ofString text)
    let tokens := [bare "NOT", bare "(", bare "NOT", bare "proq3",
      ⟨Bytes.ofString "pro-q", some .double⟩, bare ")"]
    let candidates := [Bytes.ofString "Pro-Q 3"]
    let under := fun given tokens => evaluate candidates given tokens
    (∀ site ∈ (Group.ofTokens tokens).sites, site.isExact = true) ∧
      (under (some Comparison.loose) tokens).found = (under none tokens).found ∧
      (under (some Comparison.loose) tokens).probes = [] ∧
      (∀ site ∈ (Group.ofTokens (negatedGroup (bare "3"))).sites, site.isExact = false →
        contains candidates (some Comparison.loose) site.token false =
          contains candidates none site.token false) ∧
      (under (some Comparison.loose) (negatedGroup (bare "3"))).found =
        (under none (negatedGroup (bare "3"))).found ∧
      (bare "3").role = .term ∧
      (under (some Comparison.loose) (negatedGroup (bare "3"))).found =
        (under (some Comparison.loose) (negatedTerm (bare "3"))).found := by
  intro bare tokens candidates under
  obtain ⟨ofExact, ofAgreeing, ofTerm⟩ := found_as_exactly candidates Comparison.loose
  have exactly : ∀ site ∈ (Group.ofTokens tokens).sites, site.isExact = true := by decide
  have agreeing : ∀ site ∈ (Group.ofTokens (negatedGroup (bare "3"))).sites,
      site.isExact = false →
        contains candidates (some Comparison.loose) site.token false =
          contains candidates none site.token false := by decide
  have term : (bare "3").role = .term := by decide
  have found : contains candidates (some Comparison.loose) (bare "3") false =
      contains candidates none (bare "3") false := by decide
  obtain ⟨answer, unasked⟩ := ofExact tokens exactly
  exact ⟨exactly, answer, unasked, agreeing, ofAgreeing _ agreeing, term,
    (ofTerm (bare "3") term).mpr found⟩

/-- Whether the group that a term stands in is negated; the groups around that do not count. -/
def Site.isInNegatedGroup (site : Site) : Bool := site.around.head?.any Prod.fst

/-- The only term of `NOT ( proq3 )` stands in a negated group.  The loose comparison finds it in
`Pro-Q 3`, where it is not found exactly, and so excludes what `NOT proq3` keeps. -/
theorem found_negatedGroup_loosely :
    let token := Token.bare (Bytes.ofString "proq3")
    let candidates := [Bytes.ofString "Pro-Q 3"]
    (∀ site ∈ (Group.ofTokens (negatedGroup token)).sites,
        (site.isExact || site.isInNegatedGroup) = true) ∧
      (evaluate candidates none (negatedGroup token)).found = true ∧
      (evaluate candidates (some Comparison.loose) (negatedGroup token)).found = false ∧
      (evaluate candidates (some Comparison.loose) (negatedTerm token)).found = true := by
  decide

end NameSearch
