import NameSearch.Proofs.Query.Tree

/-!
# Terms and what stands around them

The terms of a query in order, each with the branches and items in front of it, in its own group and
in every group around that.  Whether a term is searched for is told by what these branches and items
hold: a group that an earlier branch has decided is passed over, and so is a group that opens
without negation behind an item that does not hold.
-/

namespace NameSearch

/-- Where an item stands in its group. -/
structure Standing where
  /-- The branches in front of the one it is in. -/
  earlier : List Branch
  /-- The items in front of it in its own branch. -/
  before : List Item

/-- A term and where it stands. -/
structure Site where
  /-- The term. -/
  token : Token
  /-- Whether it is directly negated. -/
  negated : Bool
  /-- Where it stands in its own group. -/
  standing : Standing
  /-- The groups it is in, innermost first: whether each is negated and where it stands in the group
  around it. -/
  around : List (Bool × Standing)

mutual

/-- The terms of an item that stands as given. -/
def Item.sites (around : List (Bool × Standing)) (standing : Standing) : Item → List Site
  | .term negated token => [⟨token, negated, standing, around⟩]
  | .group negated branches => Group.sitesFrom ((negated, standing) :: around) [] branches

/-- The terms of the items that follow `before` in a branch. -/
def Branch.sitesFrom (around : List (Bool × Standing)) (earlier : List Branch)
    (before : List Item) : Branch → List Site
  | [] => []
  | item :: items =>
    Item.sites around ⟨earlier, before⟩ item
      ++ Branch.sitesFrom around earlier (before ++ [item]) items

/-- The terms of the branches that follow `earlier` in a group. -/
def Group.sitesFrom (around : List (Bool × Standing)) (earlier : List Branch) :
    Group → List Site
  | [] => []
  | branch :: later =>
    Branch.sitesFrom around earlier [] branch
      ++ Group.sitesFrom around (earlier ++ [branch]) later

end

/-- The terms of a query in order. -/
def Group.sites (group : Group) : List Site := group.sitesFrom [] []

/-! ## The order of terms -/

/-- The terms among some tokens with `depth` groups open in front of them: a closing bracket is one
where it closes no group. -/
def terms : (depth : Nat) → List Token → List Token
  | _, [] => []
  | depth, token :: tokens =>
    match token.role, depth with
    | .term, depth => token :: terms depth tokens
    | .closing, 0 => token :: terms 0 tokens
    | .closing, depth + 1 => terms depth tokens
    | .opening, depth => terms (depth + 1) tokens
    | .idle, depth | .keyword _, depth => terms depth tokens

mutual

/-- The terms of an item from left to right. -/
def Item.terms : Item → List Token
  | .term _ token => [token]
  | .group _ branches => Group.terms branches

/-- The terms of a branch from left to right. -/
def Branch.terms : Branch → List Token
  | [] => []
  | item :: items => Item.terms item ++ Branch.terms items

/-- The terms of a group from left to right. -/
def Group.terms : Group → List Token
  | [] => []
  | branch :: later => Branch.terms branch ++ Group.terms later

end

mutual

theorem Item.map_token_sites (around : List (Bool × Standing)) (standing : Standing) :
    ∀ item : Item, (item.sites around standing).map Site.token = item.terms
  | .term _ _ => rfl
  | .group negated branches => Group.map_token_sitesFrom ((negated, standing) :: around) [] branches

theorem Branch.map_token_sitesFrom (around : List (Bool × Standing)) (earlier : List Branch)
    (before : List Item) :
    ∀ branch : Branch, (branch.sitesFrom around earlier before).map Site.token = branch.terms
  | [] => rfl
  | item :: items => by
      rw [Branch.sitesFrom, List.map_append, Item.map_token_sites,
        Branch.map_token_sitesFrom around earlier (before ++ [item]) items, Branch.terms]

theorem Group.map_token_sitesFrom (around : List (Bool × Standing)) (earlier : List Branch) :
    ∀ group : Group, (group.sitesFrom around earlier).map Site.token = group.terms
  | [] => rfl
  | branch :: later => by
      rw [Group.sitesFrom, List.map_append, Branch.map_token_sitesFrom,
        Group.map_token_sitesFrom around (earlier ++ [branch]) later, Group.terms]

end

@[simp]
theorem Group.terms_addItem (item : Item) (group : Group) :
    (group.addItem item).terms = item.terms ++ group.terms := by
  cases group with
  | nil => simp [addItem, terms, Branch.terms]
  | cons branch later => simp [addItem, terms, Branch.terms]

namespace Rest

/-- The terms that are still to come. -/
def terms (rest : Rest) : List Token := rest.inner.terms ++ rest.outer.flatMap Group.terms

@[simp]
theorem terms_addItem (item : Item) (rest : Rest) :
    (rest.addItem item).terms = item.terms ++ rest.terms := by
  simp [terms, addItem]

@[simp]
theorem terms_addBranch (rest : Rest) : rest.addBranch.terms = rest.terms := rfl

@[simp]
theorem terms_close (rest : Rest) : rest.close.terms = rest.terms := rfl

@[simp]
theorem terms_wrap (negated : Bool) (rest : Rest) : (rest.wrap negated).terms = rest.terms := by
  rw [wrap, terms_addItem, Item.terms, terms, leave, terms]
  cases rest.outer <;> rfl

/-- What is still to come in front of some tokens holds their terms in order. -/
theorem terms_ofTokens (tokens : List Token) (depth : Nat) (negated : Bool) :
    (ofTokens depth negated tokens).terms = NameSearch.terms depth tokens := by
  fun_induction ofTokens depth negated tokens with
  | case1 => rfl
  | _ => simp [NameSearch.terms, Item.terms, *]

theorem length_outer_ofTokens (tokens : List Token) (depth : Nat) (negated : Bool) :
    (ofTokens depth negated tokens).outer.length ≤ depth := by
  fun_induction ofTokens depth negated tokens with
  | case1 => exact Nat.zero_le _
  | case6 _ _ _ _ _ inside =>
      simp only [wrap, addItem, leave, List.length_tail]
      omega
  | case7 _ _ _ _ _ behind => exact Nat.succ_le_succ behind
  | _ => assumption

end Rest

theorem map_token_sites_ofTokens (tokens : List Token) :
    (Group.ofTokens tokens).sites.map Site.token = terms 0 tokens := by
  have outermost : (Rest.ofTokens 0 false tokens).outer = [] :=
    List.length_eq_zero_iff.mp (Nat.le_zero.mp (Rest.length_outer_ofTokens tokens 0 false))
  have spelled := Rest.terms_ofTokens tokens 0 false
  rw [Rest.terms, outermost, List.flatMap_nil, List.append_nil] at spelled
  rw [Group.sites, Group.map_token_sitesFrom, Group.ofTokens, spelled]

/-! ## Terms that are searched for -/

section Searching

variable (contains : Token → Bool → Bool)

/-- Whether none of the branches in front of some place of a group holds, so that the group is still
undecided there. -/
def noneHolds (earlier : List Branch) : Bool := earlier.all fun branch => !branch.holds contains

/-- Whether a group that stands as given is gone into: the group around it is undecided, and it is
negated or all items in front of it in its branch hold. -/
def Standing.isEntered (standing : Standing) (negated : Bool) : Bool :=
  noneHolds contains standing.earlier
    && (negated || standing.before.all (Item.holds contains))

/-- Whether all the groups around some place have been gone into. -/
def areEntered (around : List (Bool × Standing)) : Bool :=
  around.all fun (negated, standing) => standing.isEntered contains negated

/-- Whether a term is searched for: its own group is undecided and every group it is in has been
gone into. -/
def Site.isSearched (site : Site) : Bool :=
  areEntered contains site.around && noneHolds contains site.standing.earlier

mutual

/-- The terms of an item that are searched for when its group has been gone into, each with whether
it is negated; `failed` tells whether an item in front of it in its branch does not hold. -/
def Item.searched (failed : Bool) : Item → List (Bool × Token)
  | .term negated token => [(negated, token)]
  | .group negated branches =>
    if failed && !negated then [] else Group.searched branches

/-- The terms of a branch that are searched for, behind items of which one does not hold if
`failed`. -/
def Branch.searched (failed : Bool) : Branch → List (Bool × Token)
  | [] => []
  | item :: items =>
    Item.searched failed item ++ Branch.searched (failed || !item.holds contains) items

/-- The terms of a group that are searched for: those of the branches through the first that
holds. -/
def Group.searched : Group → List (Bool × Token)
  | [] => []
  | branch :: later =>
    Branch.searched false branch
      ++ if branch.holds contains then [] else Group.searched later

end

/-- The term of a site and whether it is negated. -/
def Site.signed (site : Site) : Bool × Token := (site.negated, site.token)

/-- The terms at some sites that are searched for. -/
def searchedAt (sites : List Site) : List (Bool × Token) :=
  (sites.filter (Site.isSearched contains)).map Site.signed

@[simp]
theorem searchedAt_append (front back : List Site) :
    searchedAt contains (front ++ back) = searchedAt contains front ++ searchedAt contains back := by
  simp [searchedAt]

@[simp]
theorem noneHolds_append (earlier : List Branch) (branch : Branch) :
    noneHolds contains (earlier ++ [branch]) =
      (noneHolds contains earlier && !branch.holds contains) := by
  simp [noneHolds]

mutual

theorem Item.searchedAt_sites (around : List (Bool × Standing)) (standing : Standing) :
    ∀ item : Item, searchedAt contains (item.sites around standing) =
      if areEntered contains around && noneHolds contains standing.earlier then
        item.searched contains !standing.before.all (Item.holds contains)
      else []
  | .term negated token => by
      rw [Item.sites, Item.searched, searchedAt, List.filter_cons, List.filter_nil,
        Site.isSearched]
      cases areEntered contains around && noneHolds contains standing.earlier <;> rfl
  | .group negated branches => by
      have inside : areEntered contains ((negated, standing) :: around) =
          (standing.isEntered contains negated && areEntered contains around) := rfl
      rw [Item.sites, Group.searchedAt_sitesFrom, inside, Standing.isEntered, Item.searched]
      cases areEntered contains around <;> cases noneHolds contains standing.earlier <;>
        cases negated <;> cases standing.before.all (Item.holds contains) <;> rfl

theorem Branch.searchedAt_sitesFrom (around : List (Bool × Standing)) (earlier : List Branch)
    (before : List Item) :
    ∀ branch : Branch, searchedAt contains (branch.sitesFrom around earlier before) =
      if areEntered contains around && noneHolds contains earlier then
        branch.searched contains !before.all (Item.holds contains)
      else []
  | [] => by simp [Branch.sitesFrom, searchedAt, Branch.searched]
  | item :: items => by
      have further : (!(before ++ [item]).all (Item.holds contains)) =
          (!before.all (Item.holds contains) || !item.holds contains) := by
        simp [Bool.not_and]
      rw [Branch.sitesFrom, searchedAt_append, Item.searchedAt_sites,
        Branch.searchedAt_sitesFrom around earlier (before ++ [item]) items, Branch.searched,
        further]
      cases areEntered contains around && noneHolds contains earlier <;> rfl

theorem Group.searchedAt_sitesFrom (around : List (Bool × Standing)) (earlier : List Branch) :
    ∀ group : Group, searchedAt contains (group.sitesFrom around earlier) =
      if areEntered contains around && noneHolds contains earlier then
        group.searched contains
      else []
  | [] => by simp [Group.sitesFrom, searchedAt, Group.searched]
  | branch :: later => by
      rw [Group.sitesFrom, searchedAt_append, Branch.searchedAt_sitesFrom,
        Group.searchedAt_sitesFrom around (earlier ++ [branch]) later, noneHolds_append,
        Group.searched]
      cases areEntered contains around <;> cases noneHolds contains earlier <;>
        cases branch.holds contains <;> rfl

end

/-- The terms of a query that are searched for are those whose sites say so. -/
theorem Group.searchedAt_sites (group : Group) :
    searchedAt contains group.sites = group.searched contains :=
  Group.searchedAt_sitesFrom contains [] [] group

/-- In `x y ( z ) NOT ( u OR v )`, where only `u` is found, the term behind a failed one is searched
for and the groups that are ignored or decided are not. -/
example :
    let word := fun text => Token.bare (Bytes.ofString text)
    let query := Group.ofTokens [word "x", word "y", word "(", word "z", word ")", word "NOT",
      word "(", word "u", word "OR", word "v", word ")"]
    query.sites.map (Site.isSearched fun token _ => token == word "u") =
      [true, true, false, true, false] := by
  decide

end Searching

end NameSearch
