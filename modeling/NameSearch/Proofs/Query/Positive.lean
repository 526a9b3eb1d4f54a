import NameSearch.Proofs.Query.TreeEvaluation
import NameSearch.Proofs.Search.Loosening

/-!
# Queries that negate no group

A query in which no group is negated asks of each group only that it holds.  Such a query cannot be
lost when its terms are found more often, as long as negated terms are found as before: comparing
loosely instead of exactly does just that.
-/

namespace NameSearch

/-! ## Negated groups among tokens -/

/-- Whether the next item of some tokens is a group in brackets.  Keywords and empty tokens in front
of it are passed over. -/
def opensNext : List Token → Bool
  | [] => false
  | token :: tokens =>
    match token.role with
    | .opening => true
    | .idle | .keyword _ => opensNext tokens
    | .closing | .term => false

/-- Whether some tokens have a `NOT` with a group as its next item. -/
def negatesGroup : List Token → Bool
  | [] => false
  | token :: tokens =>
    (token.role == .keyword .not && opensNext tokens) || negatesGroup tokens

/-! ## Negated groups in trees -/

mutual

/-- No group in an item is negated. -/
def Item.NegatesNoGroup : Item → Prop
  | .term _ _ => True
  | .group negated branches => negated = false ∧ Group.NegatesNoGroup branches

/-- No group in a branch is negated. -/
def Branch.NegatesNoGroup : Branch → Prop
  | [] => True
  | item :: items => Item.NegatesNoGroup item ∧ Branch.NegatesNoGroup items

/-- No group inside a group is negated. -/
def Group.NegatesNoGroup : Group → Prop
  | [] => True
  | branch :: later => Branch.NegatesNoGroup branch ∧ Group.NegatesNoGroup later

end

theorem Group.negatesNoGroup_addItem {item : Item} {group : Group}
    (inItem : item.NegatesNoGroup) (inGroup : group.NegatesNoGroup) :
    (group.addItem item).NegatesNoGroup := by
  cases group with
  | nil => exact ⟨⟨inItem, trivial⟩, trivial⟩
  | cons branch later => exact ⟨⟨inItem, inGroup.1⟩, inGroup.2⟩

namespace Rest

/-- Nothing that is still to come negates a group. -/
def NegatesNoGroup (rest : Rest) : Prop :=
  rest.inner.NegatesNoGroup ∧ ∀ group ∈ rest.outer, group.NegatesNoGroup

theorem negatesNoGroup_empty : ({} : Rest).NegatesNoGroup :=
  ⟨⟨trivial, trivial⟩, fun _ member => nomatch member⟩

theorem negatesNoGroup_addItem {rest : Rest} {item : Item} (inItem : item.NegatesNoGroup)
    (inRest : rest.NegatesNoGroup) : (rest.addItem item).NegatesNoGroup :=
  ⟨Group.negatesNoGroup_addItem inItem inRest.1, inRest.2⟩

theorem negatesNoGroup_addBranch {rest : Rest} (inRest : rest.NegatesNoGroup) :
    rest.addBranch.NegatesNoGroup :=
  ⟨⟨trivial, inRest.1⟩, inRest.2⟩

theorem negatesNoGroup_leave {rest : Rest} (inRest : rest.NegatesNoGroup) :
    rest.leave.NegatesNoGroup := by
  obtain ⟨inner, outer⟩ := rest
  cases outer with
  | nil => exact negatesNoGroup_empty
  | cons group groups =>
      obtain ⟨-, around⟩ := inRest
      constructor
      · exact around group List.mem_cons_self
      · intro other member
        exact around other (List.mem_cons_of_mem group member)

theorem negatesNoGroup_close {rest : Rest} (inRest : rest.NegatesNoGroup) :
    rest.close.NegatesNoGroup := by
  constructor
  · exact ⟨trivial, trivial⟩
  · intro group member
    rcases List.mem_cons.mp member with rfl | around
    · exact inRest.1
    · exact inRest.2 group around

/-- Tokens that negate no group spell trees that negate none.  A pending negation must not meet a
group either. -/
theorem negatesNoGroup_ofTokens {tokens : List Token} (quiet : negatesGroup tokens = false)
    {negated : Bool} (ahead : negated = true → opensNext tokens = false) (depth : Nat) :
    (ofTokens depth negated tokens).NegatesNoGroup := by
  induction tokens generalizing negated depth with
  | nil => exact negatesNoGroup_empty
  | cons token tokens induction =>
      rw [negatesGroup, Bool.or_eq_false_iff] at quiet
      obtain ⟨here, later⟩ := quiet
      rw [opensNext] at ahead
      have fresh : ∀ depth, (ofTokens depth false tokens).NegatesNoGroup :=
        induction later fun pending => nomatch pending
      cases role : token.role with
      | idle =>
          simp only [role] at ahead
          simpa [role] using induction later ahead depth
      | keyword keyword =>
          simp only [role] at ahead here
          cases keyword with
          | and => simpa [role] using induction later ahead depth
          | or => simpa [role] using negatesNoGroup_addBranch (induction later ahead depth)
          | not =>
              rw [ofTokens_not role]
              exact induction later (fun _ => by simpa using here) depth
      | opening =>
          have plain : negated = false := by simpa [role] using ahead
          rw [ofTokens_opening role, wrap]
          have inside := fresh (depth + 1)
          exact negatesNoGroup_addItem ⟨plain, inside.1⟩ (negatesNoGroup_leave inside)
      | term =>
          rw [ofTokens_term role]
          exact negatesNoGroup_addItem trivial (fresh depth)
      | closing =>
          cases depth with
          | zero =>
              rw [ofTokens_stray role]
              exact negatesNoGroup_addItem trivial (fresh 0)
          | succ depth => simpa [role] using negatesNoGroup_close (fresh depth)

end Rest

/-! ## Finding more terms -/

/-- Whatever term makes its item hold by the first answers does so by the second. -/
def Rises (contains wider : Token → Bool → Bool) : Prop :=
  ∀ token negated, (contains token negated ^^ negated) = true →
    (wider token negated ^^ negated) = true

section Rising

variable {contains wider : Token → Bool → Bool}

mutual

theorem Item.holds_mono (rises : Rises contains wider) :
    ∀ {item : Item}, item.NegatesNoGroup → item.holds contains = true → item.holds wider = true
  | .term negated token, _, holds => rises token negated holds
  | .group negated branches, ⟨plain, inside⟩, holds => by
      subst plain
      rw [Item.holds, Bool.xor_false] at holds ⊢
      exact Group.holds_mono rises inside holds

theorem Branch.allHold_mono (rises : Rises contains wider) :
    ∀ {branch : Branch}, branch.NegatesNoGroup → branch.allHold contains = true →
      branch.allHold wider = true
  | [], _, _ => rfl
  | item :: items, ⟨inItem, inItems⟩, holds => by
      rw [Branch.allHold, Bool.and_eq_true] at holds ⊢
      exact ⟨Item.holds_mono rises inItem holds.1, Branch.allHold_mono rises inItems holds.2⟩

/-- A group that negates no group goes on to hold when its terms do. -/
theorem Group.holds_mono (rises : Rises contains wider) :
    ∀ {group : Group}, group.NegatesNoGroup → group.holds contains = true →
      group.holds wider = true
  | branch :: later, ⟨inBranch, inLater⟩, holds => by
      rw [Group.holds, Bool.or_eq_true, Bool.and_eq_true] at holds ⊢
      rcases holds with ⟨filled, all⟩ | behind
      · exact .inl ⟨filled, Branch.allHold_mono rises inBranch all⟩
      · exact .inr (Group.holds_mono rises inLater behind)

end

end Rising

theorem rises_loose (candidates : List Bytes) :
    Rises (contains candidates none) (contains candidates (some Comparison.loose)) := by
  intro token negated value
  cases negated with
  | true => exact value
  | false =>
      rw [Bool.xor_false] at value ⊢
      exact contains_loose value

/-- A query that negates no group and holds exactly holds loosely. -/
theorem found_loose_of_found {candidates : List Bytes} {tokens : List Token}
    (quiet : negatesGroup tokens = false) (found : (evaluate candidates none tokens).found = true) :
    (evaluate candidates (some Comparison.loose) tokens).found = true := by
  rw [found_evaluate, Bool.or_eq_true] at found ⊢
  rcases found with void | holds
  · exact .inl void
  · have nothing : false = true → opensNext tokens = false := fun pending => nomatch pending
    obtain ⟨inside, -⟩ := Rest.negatesNoGroup_ofTokens quiet nothing 0
    exact .inr (Group.holds_mono (rises_loose candidates) inside holds)

/-- `( "eq" NOT x ) OR NOT eq8 8` holds of `EQ-8` by its second branch.  Loosely `eq8` would be found
there, but a negated term is compared exactly in both ways. -/
theorem found_loose_of_found_words :
    let bare := fun text => Token.bare (Bytes.ofString text)
    let tokens := [bare "(", ⟨Bytes.ofString "eq", some .double⟩, bare "NOT", bare "x", bare ")",
      bare "OR", bare "NOT", bare "eq8", bare "8"]
    let candidates := [Bytes.ofString "EQ-8", Bytes.ofString "x"]
    negatesGroup tokens = false ∧ (evaluate candidates none tokens).found = true ∧
      (evaluate candidates (some Comparison.loose) tokens).found = true := by
  intro bare tokens candidates
  have quiet : negatesGroup tokens = false := by decide
  have found : (evaluate candidates none tokens).found = true := by decide
  exact ⟨quiet, found, found_loose_of_found quiet found⟩

end NameSearch
