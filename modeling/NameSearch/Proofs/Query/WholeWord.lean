import NameSearch.Proofs.Query.SingleTerm

/-!
# Whole words and whole fields

A text that is anchored on both sides is searched for among the pieces of a candidate between the
bytes that its anchors allow.  So a quoted word is one of the words of the candidate, and a text
between a caret and a dollar sign is one of its fields.
-/

namespace NameSearch

/-! ## Pieces of a list -/

section Pieces

variable {α : Type} {p : α → Bool}

/-- Whether a piece stands in a list with elements beside it that satisfy `p`, or none. -/
structure StandsIn (p : α → Bool) (list before piece after : List α) : Prop where
  /-- The three parts are the list. -/
  whole : list = before ++ (piece ++ after)
  /-- The last element before the piece. -/
  left : before = [] ∨ ∃ element, before.getLast? = some element ∧ p element = true
  /-- The first element after the piece. -/
  right : after = [] ∨ ∃ element, after.head? = some element ∧ p element = true

theorem StandsIn.append_stop {stop : α} (stops : p stop = true) {list before piece after : List α}
    (stands : StandsIn p list before piece after) (front : List α) :
    StandsIn p (front ++ stop :: list) (front ++ stop :: before) piece after where
  whole := by rw [stands.whole, List.append_assoc, List.cons_append]
  left := by
    right
    rcases stands.left with rfl | ⟨element, last, allowed⟩
    · exact ⟨stop, by simp, stops⟩
    · exact ⟨element, by simp [List.getLast?_cons, last], allowed⟩
  right := stands.right

theorem StandsIn.mem_splitOnP {list before piece after : List α}
    (stands : StandsIn p list before piece after) (unbroken : ∀ element ∈ piece, p element = false) :
    piece ∈ list.splitOnP p := by
  obtain ⟨rfl, left, right⟩ := stands
  have here : piece ∈ (piece ++ after).splitOnP p := by
    rcases right with rfl | ⟨stop, first, stops⟩
    · rw [List.append_nil, List.splitOnP_eq_singleton unbroken]
      exact List.mem_singleton_self piece
    · obtain ⟨later, rfl⟩ := List.head?_eq_some_iff.mp first
      rw [List.splitOnP_append_cons_of_forall_mem unbroken stop stops]
      exact List.mem_cons_self
  rcases left with rfl | ⟨stop, last, stops⟩
  · exact here
  · obtain ⟨front, rfl⟩ := List.getLast?_eq_some_iff.mp last
    rw [List.append_assoc, List.singleton_append, List.splitOnP_append_cons _ _ stops]
    exact List.mem_append_right _ here

theorem exists_standsIn (list : List α) :
    ∀ piece ∈ list.splitOnP p, (∀ element ∈ piece, p element = false) ∧
      ∃ before after, StandsIn p list before piece after := by
  intro piece member
  have parts := List.takeWhile_append_dropWhile (p := (!p ·)) (l := list)
  have unbroken : ∀ element ∈ list.takeWhile (!p ·), p element = false := by
    intro element taken
    simpa using of_mem_takeWhile taken
  cases behind : list.dropWhile (!p ·) with
  | nil =>
      rw [behind, List.append_nil] at parts
      rw [parts] at unbroken
      rw [List.splitOnP_eq_singleton unbroken, List.mem_singleton] at member
      subst member
      exact ⟨unbroken, [], [], by simp, .inl rfl, .inl rfl⟩
  | cons stop later =>
      have stops : p stop = true := by
        have stopped := List.head?_dropWhile_not (!p ·) list
        simpa [behind] using stopped
      have shorter : later.length < list.length := by
        rw [← parts, behind, List.length_append, List.length_cons]
        omega
      rw [behind] at parts
      rw [← parts, List.splitOnP_append_cons_of_forall_mem unbroken stop stops,
        List.mem_cons] at member
      rw [← parts]
      rcases member with rfl | inLater
      · exact ⟨unbroken, [], stop :: later, rfl, .inl rfl, .inr ⟨stop, rfl, stops⟩⟩
      · obtain ⟨plain, before, after, stands⟩ := exists_standsIn later piece inLater
        exact ⟨plain, _, after, stands.append_stop stops _⟩
termination_by list.length

/-- The pieces of a list are its longest parts without stops. -/
theorem mem_splitOnP_iff {list piece : List α} :
    piece ∈ list.splitOnP p ↔
      (∀ element ∈ piece, p element = false) ∧ ∃ before after, StandsIn p list before piece after :=
  ⟨exists_standsIn list piece, fun ⟨unbroken, _, _, stands⟩ => stands.mem_splitOnP unbroken⟩

end Pieces

/-! ## Anchors and the bytes of a text -/

theorem Anchor.isUpper_of_allows {anchor : Anchor} (asks : anchor ≠ .free) {byte : UInt8}
    (allowed : anchor.allows (some byte) = true) : Byte.isUpper byte = false := by
  cases anchor with
  | free => exact absurd rfl asks
  | word =>
      simp only [allows, isBreak, Bool.or_eq_true, beq_iff_eq] at allowed
      rcases allowed with (((((rfl | rfl) | rfl) | rfl) | rfl) | rfl) | rfl <;> rfl
  | field =>
      obtain rfl := beq_iff_eq.mp allowed
      rfl

theorem Comparison.Accepts.unbroken {anchor : Anchor} (asks : anchor ≠ .free) {text span : Bytes}
    (accepted : Accepts text span) (plain : ∀ byte ∈ text, anchor.allows (some byte) = false) :
    ∀ byte ∈ span, anchor.allows (some byte) = false := by
  induction accepted with
  | nil => exact fun _ member => nomatch member
  | @cons sought byte text span here _ induction =>
      obtain ⟨first, later⟩ := List.forall_mem_cons.mp plain
      refine List.forall_mem_cons.mpr ⟨?_, induction later⟩
      cases allowed : anchor.allows (some byte) with
      | false => rfl
      | true => rw [← first, eq_of_accepts (Anchor.isUpper_of_allows asks allowed) here, allowed]

/-- A text that is anchored in the same way on both sides, and has no bytes that its anchors allow,
occurs where it is a piece of the candidate. -/
theorem Pattern.occursIn_iff_piece {anchor : Anchor} (asks : anchor ≠ .free) {text : Bytes}
    (filled : text ≠ []) (plain : ∀ byte ∈ text, anchor.allows (some byte) = false)
    (quoted : Bool) (given : Option Comparison) (unasked : quoted = true ∨ given = none)
    (candidate : Bytes) :
    let pattern : Pattern := ⟨text, anchor, anchor, quoted⟩
    pattern.occursIn (pattern.chosen given) candidate = true ↔
      ∃ piece ∈ candidate.splitOnP fun byte => anchor.allows (some byte),
        Comparison.Accepts text piece := by
  intro pattern
  have inUse_eq : pattern.inUse given = none := by
    rcases unasked with rfl | rfl
    · rfl
    · rw [inUse, ite_self]
  rw [occursIn_chosen_iff, inUse_eq]
  constructor
  · rintro ⟨before, piece, after, whole, -, accepted, left, right⟩
    have stands : StandsIn (fun byte => anchor.allows (some byte)) candidate before piece after :=
      ⟨whole, left, right⟩
    exact ⟨piece, stands.mem_splitOnP (accepted.unbroken asks plain), accepted⟩
  · rintro ⟨piece, member, accepted⟩
    obtain ⟨-, before, after, whole, left, right⟩ := mem_splitOnP_iff.mp member
    refine ⟨before, piece, after, whole, ?_, accepted, left, right⟩
    rintro rfl
    exact filled (List.forall₂_nil_right_iff.mp accepted)

/-! ## Words and fields -/

section Reading

variable {text : Bytes}

theorem Pattern.ofToken_quotedWord (filled : text ≠ [])
    (plain : ∀ byte ∈ text, Anchor.isBreak byte = false) (noCaret : text.head? ≠ some 94)
    (noDollar : text.getLast? ≠ some 36) (quote : Quote) :
    ofToken ⟨text, some quote⟩ = ⟨text, .word, .word, true⟩ := by
  have noSpace : Byte.space ∉ text := fun member => nomatch plain _ member
  have noTab : Byte.tab ∉ text := fun member => nomatch plain _ member
  have stripped : IsStripped text .free text .free := by
    refine ⟨by simp [Anchor.leftMark, Anchor.rightMark], fun _ anchor marked front => ?_,
      fun _ anchor marked back => ?_⟩
    · cases anchor with
      | free => exact marked rfl
      | word => exact noSpace (front.subset List.mem_cons_self)
      | field =>
          obtain ⟨rest, rfl⟩ := front
          exact noCaret rfl
    · cases anchor with
      | free => exact marked rfl
      | word => exact noSpace (back.subset List.mem_cons_self)
      | field =>
          obtain ⟨rest, rfl⟩ := back
          exact noDollar (by simp [Anchor.rightMark])
  have reads : Reads ⟨text, some quote⟩ ⟨text, orWord .free, orWord .free, true⟩ :=
    .quotedWord stripped filled (Option.some_ne_none quote) noSpace noTab
  exact reads.eq_ofToken.symm

theorem Pattern.ofToken_field (filled : text ≠ []) :
    ofToken (Token.bare (94 :: (text ++ [36]))) = ⟨text, .field, .field, false⟩ := by
  have stripped : IsStripped (94 :: (text ++ [36])) .field text .field :=
    ⟨rfl, (fun same => nomatch same), (fun same => nomatch same)⟩
  have reads : Reads (Token.bare (94 :: (text ++ [36]))) ⟨text, .field, .field, false⟩ :=
    .marked stripped filled (.inl rfl)
  exact reads.eq_ofToken.symm

theorem Token.mayBeTerm_of_isQuoted {token : Token} (filled : token.text ≠ [])
    (quoted : token.isQuoted = true) : token.mayBeTerm = true := by
  rw [mayBeTerm, role, if_neg filled, if_pos quoted]

theorem Token.mayBeTerm_of_caret (rest : Bytes) : (bare (94 :: rest)).mayBeTerm = true := by
  have other : ∀ sign : Bytes, sign.head? ≠ some 94 → 94 :: rest ≠ sign := by
    rintro sign unlike rfl
    exact unlike rfl
  have noKeyword : Keyword.ofText? (94 :: rest) = none := by
    rw [Keyword.ofText?, if_neg (other _ (by decide)), if_neg (other _ (by decide)),
      if_neg (other _ (by decide))]
  rw [mayBeTerm, role, bare, if_neg (List.cons_ne_nil 94 rest), if_neg (by exact Bool.false_ne_true),
    if_neg (other _ (by decide)), if_neg (other _ (by decide)), noKeyword]

end Reading

/-- A quoted word is found, by any comparison, where it is one of the words of a candidate, and a
text between a caret and a dollar sign is found where it is one of the fields of a candidate. -/
theorem found_whole_iff_piece {text : Bytes} (filled : text ≠ []) (candidates : List Bytes) :
    ((∀ byte ∈ text, Anchor.isBreak byte = false) → text.head? ≠ some 94 →
      text.getLast? ≠ some 36 → ∀ (quote : Quote) (given : Option Comparison),
        ((evaluate candidates given [⟨text, some quote⟩]).found = true ↔
          ∃ candidate ∈ candidates, ∃ piece ∈ candidate.splitOnP Anchor.isBreak,
            Comparison.Accepts text piece)) ∧
    (Byte.separator ∉ text →
      ((evaluate candidates none [Token.bare (94 :: (text ++ [36]))]).found = true ↔
        ∃ candidate ∈ candidates, ∃ piece ∈ candidate.splitOn Byte.separator,
          Comparison.Accepts text piece)) := by
  constructor
  · intro plain noCaret noDollar quote given
    have asks : Anchor.word ≠ .free := Anchor.noConfusion
    have pieces := Pattern.occursIn_iff_piece asks filled plain true given (.inl rfl)
    rw [found_evaluate_singleton (Token.mayBeTerm_of_isQuoted filled rfl), contains,
      Pattern.ofToken_quotedWord filled plain noCaret noDollar, List.any_eq_true]
    exact exists_congr fun candidate => and_congr_right fun _ => pieces candidate
  · intro noSeparator
    have plain : ∀ byte ∈ text, Anchor.field.allows (some byte) = false := by
      intro byte member
      rw [Anchor.allows, beq_eq_false_iff_ne]
      rintro rfl
      exact noSeparator member
    have asks : Anchor.field ≠ .free := Anchor.noConfusion
    have pieces := Pattern.occursIn_iff_piece asks filled plain false none (.inr rfl)
    rw [found_evaluate_singleton (Token.mayBeTerm_of_caret _), contains,
      Pattern.ofToken_field filled, List.any_eq_true]
    exact exists_congr fun candidate => and_congr_right fun _ => pieces candidate

/-- The word `CAT` stands between a dot and a slash, and the field `Cat` between a separator and the
end; the words and fields that only hold `cat` do not count. -/
theorem found_whole_iff_piece_cat :
    let text := Bytes.ofString "cat"
    let words := [Bytes.ofString "wildcat", Bytes.ofString "a.CAT/b"]
    let fields := [Bytes.ofString "category\x01Cat"]
    (text ≠ [] ∧ (∀ byte ∈ text, Anchor.isBreak byte = false) ∧ text.head? ≠ some 94 ∧
      text.getLast? ≠ some 36 ∧ Byte.separator ∉ text) ∧
    (∀ given, (evaluate words given [⟨text, some .single⟩]).found = true) ∧
    (evaluate fields none [Token.bare (94 :: (text ++ [36]))]).found = true := by
  intro text words fields
  have filled : text ≠ [] := by decide
  have plain : ∀ byte ∈ text, Anchor.isBreak byte = false := by
    have checked : text.all (!Anchor.isBreak ·) = true := by decide
    simpa using checked
  have noCaret : text.head? ≠ some 94 := by decide
  have noDollar : text.getLast? ≠ some 36 := by decide
  have noSeparator : Byte.separator ∉ text := by decide
  refine ⟨⟨filled, plain, noCaret, noDollar, noSeparator⟩, fun given => ?_, ?_⟩
  · have piece : Bytes.ofString "CAT" ∈ (Bytes.ofString "a.CAT/b").splitOnP Anchor.isBreak := by
      decide
    apply ((found_whole_iff_piece filled words).1 plain noCaret noDollar .single given).mpr
    exact ⟨_, by decide, _, piece, .cons rfl (.cons rfl (.cons rfl .nil))⟩
  · have piece : Bytes.ofString "Cat" ∈
        (Bytes.ofString "category\x01Cat").splitOn Byte.separator := by
      decide
    apply ((found_whole_iff_piece filled fields).2 noSeparator).mpr
    exact ⟨_, by decide, _, piece, .cons rfl (.cons rfl (.cons rfl .nil))⟩

end NameSearch
