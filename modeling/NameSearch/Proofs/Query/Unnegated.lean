import NameSearch.Proofs.Query.Positive

/-!
# Queries without negation

Without `NOT` among its tokens a walk negates nothing, neither in the group it is in nor in those
around it.  Such a query asks of the candidates only that they contain terms, so it cannot be lost
when there are more of them, in whatever order and however often.
-/

namespace NameSearch

theorem Token.eq_not_of_role {token : Token} (negates : token.role = .keyword .not) :
    token = bare Keyword.not.text := by
  obtain ⟨text, quote⟩ := token
  rw [role] at negates
  split at negates
  · cases negates
  split at negates
  · cases negates
  next unquoted =>
    split at negates
    · cases negates
    split at negates
    · cases negates
    split at negates
    · next keyword spelled =>
        obtain rfl := Role.keyword.inj negates
        obtain rfl := Keyword.text_of_ofText? spelled
        obtain rfl := Option.not_isSome_iff_eq_none.mp unquoted
        rfl
    · cases negates

section Unnegated

variable {tokens : List Token} (unnegated : Token.bare Keyword.not.text ∉ tokens)

include unnegated

theorem role_ne_not (token : Token) (member : token ∈ tokens) : token.role ≠ .keyword .not := by
  intro negates
  obtain rfl := Token.eq_not_of_role negates
  exact unnegated member

theorem negatesGroup_of_unnegated : negatesGroup tokens = false := by
  have plain := role_ne_not unnegated
  clear unnegated
  induction tokens with
  | nil => rfl
  | cons token tokens induction =>
      obtain ⟨here, later⟩ := List.forall_mem_cons.mp plain
      rw [negatesGroup, induction later, Bool.or_false, beq_false_of_ne here, Bool.false_and]

end Unnegated

/-! ## Walks that negate nothing -/

namespace Walk

/-- Whether nothing is negated in the group a walk is in, nor in those around it. -/
structure IsPlain (walk : Walk) : Prop where
  inner : walk.level.negated = false
  outer : ∀ frame ∈ walk.frames, frame.outer.negated = false

theorem isPlain_meet (look : Lookup) {walk : Walk} (plain : walk.IsPlain) (token : Token) :
    (walk.meet look token).1.IsPlain := by
  refine ⟨?_, fun frame member => plain.outer frame ?_⟩
  · rw [meet]
    split
    · exact plain.inner
    · rfl
  · simpa using member

theorem isPlain_step (look : Lookup) {walk : Walk} (plain : walk.IsPlain) {token : Token}
    (other : token.role ≠ .keyword .not) : (walk.step look token).1.IsPlain := by
  cases role : token.role with
  | idle => simpa [role] using plain
  | opening =>
      rw [step_opening role, openGroup]
      refine ⟨?_, List.forall_mem_cons.mpr ⟨plain.inner, plain.outer⟩⟩
      cases walk.level.ignoresGroup <;> rfl
  | keyword keyword =>
      rw [step_keyword role]
      cases keyword with
      | and | or => exact ⟨plain.inner, plain.outer⟩
      | not => exact absurd role other
  | term => simpa [role] using isPlain_meet look plain token
  | closing =>
      cases opened : walk.frames with
      | nil => simpa [role, opened] using isPlain_meet look plain token
      | cons frame frames =>
          rw [step_closing role opened]
          have around := plain.outer
          rw [opened] at around
          obtain ⟨here, later⟩ := List.forall_mem_cons.mp around
          refine ⟨?_, later⟩
          rw [Frame.close]
          split
          · exact here
          · rfl

end Walk

/-! ## More candidates -/

/-- Search for terms in some candidates, but for negated ones in fewer. -/
def lookupApart (fewer more : List Bytes) (comparison : Option Comparison) : Lookup :=
  fun token negated => lookup (if negated then fewer else more) comparison token negated

/-- A query without `NOT` does not see where negated terms are searched for. -/
theorem found_eq_lookupApart {tokens : List Token}
    (unnegated : Token.bare Keyword.not.text ∉ tokens) (fewer more : List Bytes)
    (given : Option Comparison) :
    (evaluate more given tokens).found =
      (Walk.run (lookupApart fewer more given) {} tokens).1.answer := by
  have same : (Walk.run (lookup more given) {} tokens).1 =
      (Walk.run (lookupApart fewer more given) {} tokens).1 := by
    apply Walk.run_congr_of_kept (motive := Walk.IsPlain)
    · intro token member walk plain
      exact Walk.isPlain_step _ plain (role_ne_not unnegated token member)
    · intro token _ _ walk plain
      rw [plain.inner]
      rfl
    · exact ⟨rfl, fun _ member => nomatch member⟩
  rw [evaluate, same]

theorem contains_of_subset {candidates others : List Bytes} (within : candidates ⊆ others)
    {given : Option Comparison} {token : Token} {negated : Bool}
    (inside : contains candidates given token negated = true) :
    contains others given token negated = true := by
  obtain ⟨candidate, member, holds⟩ := List.any_eq_true.mp inside
  exact List.any_eq_true.mpr ⟨candidate, within member, holds⟩

theorem rises_of_subset {candidates others : List Bytes} (within : candidates ⊆ others)
    (given : Option Comparison) :
    Rises (contains candidates given) fun token negated =>
      contains (if negated then candidates else others) given token negated := by
  intro token negated value
  cases negated with
  | true => exact value
  | false =>
      rw [Bool.xor_false] at value ⊢
      exact contains_of_subset within value

/-- A query without `NOT` that holds of some candidates holds of all lists with these among them. -/
theorem found_of_subset {tokens : List Token} (unnegated : Token.bare Keyword.not.text ∉ tokens)
    {candidates others : List Bytes} (within : candidates ⊆ others) (given : Option Comparison)
    (found : (evaluate candidates given tokens).found = true) :
    (evaluate others given tokens).found = true := by
  have answers : ∀ token negated, (lookupApart candidates others given token negated).found =
      contains (if negated then candidates else others) given token negated :=
    fun token negated => found_lookup _ given token negated
  rw [found_evaluate, Bool.or_eq_true] at found
  rw [found_eq_lookupApart unnegated candidates, Walk.answer_run answers, Bool.or_eq_true]
  refine found.imp_right fun holds => ?_
  have nothing : false = true → opensNext tokens = false := fun pending => nomatch pending
  obtain ⟨inside, -⟩ := Rest.negatesNoGroup_ofTokens (negatesGroup_of_unnegated unnegated) nothing 0
  exact Group.holds_mono (rises_of_subset within given) inside holds

/-- `( x OR eq8 ) 8 OR "NOT"` holds loosely of `EQ-8` by its group and its second item.  With one
more candidate in front and one behind, the group is decided by its first branch instead. -/
theorem found_of_subset_words :
    let bare := fun text => Token.bare (Bytes.ofString text)
    let tokens := [bare "(", bare "x", bare "OR", bare "eq8", bare ")", bare "8", bare "OR",
      ⟨Bytes.ofString "NOT", some .double⟩]
    let candidates := [Bytes.ofString "EQ-8"]
    let others := [Bytes.ofString "x", Bytes.ofString "EQ-8", Bytes.ofString "x"]
    Token.bare Keyword.not.text ∉ tokens ∧ candidates ⊆ others ∧
      (evaluate candidates (some Comparison.loose) tokens).found = true ∧
      (evaluate others (some Comparison.loose) tokens).found = true := by
  intro bare tokens candidates others
  have unnegated : Token.bare Keyword.not.text ∉ tokens := by decide
  have within : candidates ⊆ others := by decide
  have found : (evaluate candidates (some Comparison.loose) tokens).found = true := by decide
  exact ⟨unnegated, within, found, found_of_subset unnegated within _ found⟩

end NameSearch
