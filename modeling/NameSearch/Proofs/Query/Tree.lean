import NameSearch.Query.Evaluation

/-!
# Queries as trees

A query read as a tree of groups, branches and items, and the truth value of such a tree.  Brackets
make groups, `OR` separates the branches of a group, and terms and groups are the items of a branch.
An item keeps whether it is negated: whether an odd number of `NOT` stands between it and the item
before it in its own group, in whichever branch that item is.
-/

namespace NameSearch

/-- An item of a branch. -/
inductive Item where
  /-- A term to be searched for. -/
  | term (negated : Bool) (token : Token)
  /-- A group, as the list of its branches. -/
  | group (negated : Bool) (branches : List (List Item))

/-- Items that stand side by side. -/
abbrev Branch := List Item

/-- Branches that `OR` separates. -/
abbrev Group := List Branch

/-! ## Truth values -/

mutual

/-- Whether an item holds, where `contains` tells of each term whether it is found. -/
def Item.holds (contains : Token → Bool → Bool) : Item → Bool
  | .term negated token => contains token negated ^^ negated
  | .group negated branches => Group.holds contains branches ^^ negated

/-- Whether all items of a branch hold. -/
def Branch.allHold (contains : Token → Bool → Bool) : Branch → Bool
  | [] => true
  | item :: items => Item.holds contains item && Branch.allHold contains items

/-- Whether some branch of a group has an item and all its items hold. -/
def Group.holds (contains : Token → Bool → Bool) : Group → Bool
  | [] => false
  | branch :: later =>
    (!branch.isEmpty && Branch.allHold contains branch) || Group.holds contains later

end

/-- A branch holds when it has items and all of them hold. -/
def Branch.holds (contains : Token → Bool → Bool) (branch : Branch) : Bool :=
  !branch.isEmpty && branch.all (Item.holds contains)

theorem Branch.allHold_eq (contains : Token → Bool → Bool) (branch : Branch) :
    Branch.allHold contains branch = branch.all (Item.holds contains) := by
  induction branch with
  | nil => rfl
  | cons item items induction => rw [Branch.allHold, List.all_cons, induction]

/-- A group holds when one of its branches does. -/
theorem Group.holds_eq (contains : Token → Bool → Bool) (group : Group) :
    Group.holds contains group = group.any (Branch.holds contains) := by
  induction group with
  | nil => rfl
  | cons branch later induction =>
      rw [Group.holds, List.any_cons, induction, Branch.allHold_eq, Branch.holds]

namespace Group

/-- Whether no branch of a group has an item. -/
def isVoid (group : Group) : Bool := group.all List.isEmpty

/-- Put an item in front of the first branch. -/
def addItem (item : Item) : Group → Group
  | [] => [[item]]
  | branch :: later => (item :: branch) :: later

@[simp]
theorem isVoid_addItem (item : Item) (group : Group) :
    (group.addItem item).isVoid = false := by
  cases group <;> simp [addItem, isVoid]

@[simp]
theorem isVoid_addBranch (group : Group) : isVoid ([] :: group) = group.isVoid := by
  simp [isVoid]

end Group

/-! ## Reading tokens -/

/-- What is still to come of the groups that are open at some place of a query. -/
structure Rest where
  /-- The rest of the innermost group; its first branch goes on with the branch that is open. -/
  inner : Group := [[]]
  /-- The rests of the groups around it, innermost first.  Those that are not listed end here. -/
  outer : List Group := []

namespace Rest

/-- What is still to come once the innermost group is left. -/
def leave (rest : Rest) : Rest := ⟨rest.outer.headD [[]], rest.outer.tail⟩

/-- What is still to come in front of an item. -/
def addItem (item : Item) (rest : Rest) : Rest := { rest with inner := rest.inner.addItem item }

/-- What is still to come in front of the start of another branch. -/
def addBranch (rest : Rest) : Rest := { rest with inner := [] :: rest.inner }

/-- What is still to come in front of a bracket that opens the innermost group. -/
def wrap (negated : Bool) (rest : Rest) : Rest := rest.leave.addItem (.group negated rest.inner)

/-- What is still to come in front of a bracket that closes a group. -/
def close (rest : Rest) : Rest := ⟨[[]], rest.inner :: rest.outer⟩

@[simp]
theorem leave_empty : ({} : Rest).leave = {} := rfl

@[simp]
theorem leave_close (rest : Rest) : rest.close.leave = rest := rfl

@[simp]
theorem inner_close (rest : Rest) : rest.close.inner = [[]] := rfl

/-- Read tokens with `depth` groups open, where `negated` tells whether the next item is negated.
Groups that are open at the end are closed there, and a closing bracket that closes no group is a
term. -/
def ofTokens : (depth : Nat) → (negated : Bool) → List Token → Rest
  | _, _, [] => {}
  | depth, negated, token :: tokens =>
    match token.role, depth with
    | .idle, depth => ofTokens depth negated tokens
    | .keyword .and, depth => ofTokens depth negated tokens
    | .keyword .or, depth => (ofTokens depth negated tokens).addBranch
    | .keyword .not, depth => ofTokens depth (!negated) tokens
    | .opening, depth => (ofTokens (depth + 1) false tokens).wrap negated
    | .closing, depth + 1 => (ofTokens depth false tokens).close
    | .closing, 0 => (ofTokens 0 false tokens).addItem (.term negated token)
    | .term, depth => (ofTokens depth false tokens).addItem (.term negated token)

section Equations

variable {token : Token} {negated : Bool} {tokens : List Token}

@[simp]
theorem ofTokens_idle (role : token.role = .idle) (depth : Nat) :
    ofTokens depth negated (token :: tokens) = ofTokens depth negated tokens := by
  simp only [ofTokens, role]

@[simp]
theorem ofTokens_and (role : token.role = .keyword .and) (depth : Nat) :
    ofTokens depth negated (token :: tokens) = ofTokens depth negated tokens := by
  simp only [ofTokens, role]

@[simp]
theorem ofTokens_or (role : token.role = .keyword .or) (depth : Nat) :
    ofTokens depth negated (token :: tokens) = (ofTokens depth negated tokens).addBranch := by
  simp only [ofTokens, role]

@[simp]
theorem ofTokens_not (role : token.role = .keyword .not) (depth : Nat) :
    ofTokens depth negated (token :: tokens) = ofTokens depth (!negated) tokens := by
  simp only [ofTokens, role]

@[simp]
theorem ofTokens_opening (role : token.role = .opening) (depth : Nat) :
    ofTokens depth negated (token :: tokens) =
      (ofTokens (depth + 1) false tokens).wrap negated := by
  simp only [ofTokens, role]

@[simp]
theorem ofTokens_closing (role : token.role = .closing) (depth : Nat) :
    ofTokens (depth + 1) negated (token :: tokens) = (ofTokens depth false tokens).close := by
  simp only [ofTokens, role]

@[simp]
theorem ofTokens_stray (role : token.role = .closing) :
    ofTokens 0 negated (token :: tokens) =
      (ofTokens 0 false tokens).addItem (.term negated token) := by
  simp only [ofTokens, role]

@[simp]
theorem ofTokens_term (role : token.role = .term) (depth : Nat) :
    ofTokens depth negated (token :: tokens) =
      (ofTokens depth false tokens).addItem (.term negated token) := by
  simp only [ofTokens, role]

end Equations

end Rest

/-- The tree that some tokens spell. -/
def Group.ofTokens (tokens : List Token) : Group := (Rest.ofTokens 0 false tokens).inner

end NameSearch
