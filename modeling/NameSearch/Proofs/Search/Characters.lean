import NameSearch.Proofs.Bytes.Characters
import NameSearch.Proofs.Search.Anchoring
import NameSearch.Proofs.Search.Fillers

/-!
# Comparing whole characters

The comparisons look at bytes, but marks, fillers and letters with a case are ASCII characters, so
what a text covers of an encoded candidate is made of whole characters.  The exact comparison meets
them one by one; behind what the loose comparison covers, no character is left half read.
-/

namespace NameSearch
namespace Comparison

open Bytes

/-- A character of the search text accepts itself and, where it is an ASCII lowercase letter, its
uppercase form. -/
def AcceptsChar (sought character : Char) : Prop :=
  sought = character ∨ (sought.isLower = true ∧ sought.toUpper = character)

/-! ## Bytes that are accepted -/

@[simp]
theorem accepts_self (byte : UInt8) : accepts byte byte = true := accepts_iff.mpr (.inl rfl)

theorem Accepts.exists_append {front back bytes : Bytes} (accepted : Accepts (front ++ back) bytes) :
    ∃ before behind, bytes = before ++ behind ∧ Accepts front before ∧ Accepts back behind := by
  induction front generalizing bytes with
  | nil => exact ⟨[], bytes, rfl, .nil, accepted⟩
  | cons sought front induction =>
      obtain ⟨byte, later, hit, following, rfl⟩ := List.forall₂_cons_left_iff.mp accepted
      obtain ⟨before, behind, rfl, first, second⟩ := induction following
      exact ⟨byte :: before, behind, rfl, .cons hit first, second⟩

theorem Accepts.eq_of_noLower {text bytes : Bytes} (accepted : Accepts text bytes)
    (plain : ∀ byte ∈ text, Byte.isLower byte = false) : bytes = text := by
  induction accepted with
  | nil => rfl
  | @cons sought byte text bytes hit _ induction =>
      obtain ⟨first, later⟩ := List.forall_mem_cons.mp plain
      have same : sought = byte := by simpa [accepts, first] using hit
      rw [same, induction later]

theorem isUTF8FirstByte_of_accepts {sought byte : UInt8} (accepted : accepts sought byte = true)
    (first : sought.IsUTF8FirstByte) : byte.IsUTF8FirstByte := by
  rcases accepts_iff.mp accepted with rfl | ⟨lower, rfl⟩
  · exact first
  · refine isUTF8FirstByte_of_ascii ?_
    rw [Byte.upper, if_pos lower]
    simp [Byte.isLower, UInt8.le_iff_toNat_le, UInt8.toNat_sub] at lower ⊢
    omega

/-! ## Characters that are accepted -/

theorem isLower_iff_toNat {character : Char} :
    character.isLower = true ↔ 97 ≤ character.val.toNat ∧ character.val.toNat ≤ 122 := by
  change (decide (character.val ≥ 'a'.val) && decide (character.val ≤ 'z'.val)) = true ↔ _
  rw [Bool.and_eq_true, decide_eq_true_eq, decide_eq_true_eq]
  rfl

theorem utf8EncodeChar_of_isLower {letter : Char} (lower : letter.isLower = true) :
    ∃ byte, String.utf8EncodeChar letter = [byte] ∧ Byte.isLower byte = true ∧
      String.utf8EncodeChar letter.toUpper = [Byte.upper byte] := by
  have table : ∀ value < 123, 97 ≤ value → let letter := Char.ofNat value
      String.utf8EncodeChar letter = [UInt8.ofNat value] ∧
        Byte.isLower (UInt8.ofNat value) = true ∧
        String.utf8EncodeChar letter.toUpper = [Byte.upper (UInt8.ofNat value)] := by
    decide
  obtain ⟨least, most⟩ := isLower_iff_toNat.mp lower
  have entry := table letter.toNat (Nat.lt_succ_of_le most) least
  rw [Char.ofNat_toNat] at entry
  exact ⟨_, entry⟩

theorem isLower_of_mem_utf8EncodeChar {character : Char} {byte : UInt8}
    (member : byte ∈ String.utf8EncodeChar character) (lower : Byte.isLower byte = true) :
    character.isLower = true := by
  simp only [Byte.isLower, Bool.and_eq_true, decide_eq_true_eq, UInt8.le_iff_toNat_le] at lower
  have same := val_eq_of_mem_utf8EncodeChar (Nat.lt_of_le_of_lt lower.2 (by decide)) member
  rw [isLower_iff_toNat, same]
  exact lower

/-- The bytes of a character accept the bytes of the characters that it accepts. -/
theorem accepts_utf8EncodeChar_iff {sought : Char} {bytes : Bytes} :
    Accepts (String.utf8EncodeChar sought) bytes ↔
      ∃ character, AcceptsChar sought character ∧ bytes = String.utf8EncodeChar character := by
  cases lower : sought.isLower with
  | true =>
      obtain ⟨byte, small, isLower, capital⟩ := utf8EncodeChar_of_isLower lower
      rw [small]
      constructor
      · intro accepted
        obtain ⟨met, _, hit, rest, rfl⟩ := List.forall₂_cons_left_iff.mp accepted
        obtain rfl := List.forall₂_nil_left_iff.mp rest
        rcases accepts_iff.mp hit with rfl | ⟨-, rfl⟩
        · exact ⟨sought, .inl rfl, small.symm⟩
        · exact ⟨sought.toUpper, .inr ⟨lower, rfl⟩, capital.symm⟩
      · rintro ⟨character, rfl | ⟨-, rfl⟩, rfl⟩
        · rw [small]
          exact .cons (accepts_self byte) .nil
        · rw [capital]
          exact .cons (accepts_iff.mpr (.inr ⟨isLower, rfl⟩)) .nil
  | false =>
      constructor
      · intro accepted
        refine ⟨sought, .inl rfl, ?_⟩
        have plain : ∀ byte ∈ String.utf8EncodeChar sought, Byte.isLower byte = false := by
          intro byte member
          cases small : Byte.isLower byte with
          | false => rfl
          | true => rw [← lower, isLower_of_mem_utf8EncodeChar member small]
        exact accepted.eq_of_noLower plain
      · rintro ⟨character, rfl | ⟨contrary, -⟩, rfl⟩
        · exact List.forall₂_same.mpr fun byte _ => accepts_self byte
        · rw [lower] at contrary
          cases contrary

/-- What encoded characters cover of an encoded text is the encoding of its next characters. -/
theorem exists_chars_of_accepts {sought characters : List Char} {span after : Bytes}
    (accepted : Accepts (ofChars sought) span) (cut : ofChars characters = span ++ after) :
    ∃ front back, characters = front ++ back ∧ List.Forall₂ AcceptsChar sought front ∧
      span = ofChars front ∧ after = ofChars back := by
  induction sought generalizing characters span with
  | nil =>
      obtain rfl := List.forall₂_nil_left_iff.mp accepted
      exact ⟨[], characters, rfl, .nil, rfl, cut.symm⟩
  | cons first sought induction =>
      obtain ⟨before, behind, rfl, hit, following⟩ := Accepts.exists_append accepted
      obtain ⟨character, accept, rfl⟩ := accepts_utf8EncodeChar_iff.mp hit
      rw [List.append_assoc] at cut
      obtain ⟨later, rfl, rest⟩ := eq_cons_of_utf8EncodeChar_append cut
      obtain ⟨front, back, rfl, accepts, rfl, rfl⟩ := induction following rest.symm
      exact ⟨character :: front, back, rfl, .cons accept accepts, rfl, rfl⟩

theorem accepts_ofChars {sought span : List Char} (accepted : List.Forall₂ AcceptsChar sought span) :
    Accepts (ofChars sought) (ofChars span) := by
  induction accepted with
  | nil => exact .nil
  | cons accept _ induction =>
      exact List.rel_append (accepts_utf8EncodeChar_iff.mpr ⟨_, accept, rfl⟩) induction

/-! ## Cuts of a candidate -/

theorem isUTF8FirstByte_of_accepts_head {sought : List Char} {first byte : UInt8} {later : Bytes}
    (text : ofChars sought = first :: later) (accepted : accepts first byte = true) :
    byte.IsUTF8FirstByte :=
  isUTF8FirstByte_of_accepts accepted (isUTF8FirstByte_of_head? (by rw [text]; rfl))

theorem toNat_lt_of_isFiller {byte : UInt8} (filler : isFiller byte = true) : byte.toNat < 128 := by
  simp only [isFiller, Bool.or_eq_true, beq_iff_eq] at filler
  rcases filler with (((rfl | rfl) | rfl) | rfl) | rfl <;> decide

theorem exists_letters_ofChars (characters : List Char) :
    ∃ kept, letters (ofChars characters) = ofChars kept := by
  induction characters with
  | nil => exact ⟨[], rfl⟩
  | cons character later induction =>
      obtain ⟨kept, rest⟩ := induction
      rw [ofChars_cons, letters_append, rest]
      by_cases plain : ∀ byte ∈ String.utf8EncodeChar character, isFiller byte = false
      · refine ⟨character :: kept, ?_⟩
        rw [ofChars_cons, letters, List.filter_eq_self.mpr (by simpa using plain)]
      · refine ⟨kept, ?_⟩
        simp only [not_forall, Bool.not_eq_false] at plain
        obtain ⟨byte, member, filler⟩ := plain
        have ascii := toNat_lt_of_isFiller filler
        have same := val_eq_of_mem_utf8EncodeChar ascii member
        have alone : String.utf8EncodeChar character = [character.val.toUInt8] :=
          utf8EncodeChar_of_ascii (by omega)
        rw [alone, List.mem_singleton] at member
        simp [alone, ← member, filler]

/-- Behind a span whose letters are accepted, the letters of an encoded text are encoded as well. -/
theorem exists_letters_behind {sought characters : List Char} {span after : Bytes}
    (accepted : Accepts (letters (ofChars sought)) (letters span))
    (cut : ofChars characters = span ++ after) : ∃ back, letters after = ofChars back := by
  obtain ⟨soughtLetters, soughtKept⟩ := exists_letters_ofChars sought
  obtain ⟨charactersLetters, kept⟩ := exists_letters_ofChars characters
  rw [soughtKept] at accepted
  rw [cut, letters_append] at kept
  obtain ⟨-, back, -, -, -, same⟩ := exists_chars_of_accepts accepted kept.symm
  exact ⟨back, same⟩

theorem isUTF8FirstByte_of_letters {bytes : Bytes} {kept : List Char}
    (encoded : letters bytes = ofChars kept) {byte : UInt8} (starts : bytes.head? = some byte) :
    byte.IsUTF8FirstByte := by
  obtain ⟨later, rfl⟩ := List.head?_eq_some_iff.mp starts
  cases filler : isFiller byte with
  | true => exact isUTF8FirstByte_of_ascii (toNat_lt_of_isFiller filler)
  | false =>
      rw [letters_cons_of_letter filler] at encoded
      exact isUTF8FirstByte_of_head? (by rw [← encoded]; rfl)

/-- What the loose comparison covers of an encoded candidate begins and ends between characters. -/
theorem exists_chars_of_loose {candidate sought : List Char} {offset : Nat}
    (found : loose (ofChars candidate) offset (ofChars sought) ≠ 0) :
    ∃ before span after, candidate = before ++ (span ++ after) ∧
      offset = (ofChars before).length ∧
      loose (ofChars candidate) offset (ofChars sought) = (ofChars span).length := by
  obtain ⟨first, -, tight⟩ := loose_finds (ofChars candidate) offset (ofChars sought)
  obtain ⟨head, later, byte, -, text, here, accepted, -⟩ := first.mp found
  obtain ⟨bounded, -, ends⟩ := tight found
  generalize loose (ofChars candidate) offset (ofChars sought) = length at bounded ends
  rw [List.extract_eq_take_drop, Nat.add_sub_cancel_left] at ends
  have start : ∀ other, ((ofChars candidate).drop offset).head? = some other →
      other.IsUTF8FirstByte := by
    intro other same
    rw [List.head?_drop, here, Option.some.injEq] at same
    exact same ▸ isUTF8FirstByte_of_accepts_head text accepted
  obtain ⟨before, rest, rfl, front, behind⟩ :=
    exists_cut_of_first (List.take_append_drop offset (ofChars candidate)).symm start
  rw [behind] at ends
  have whole := (List.take_append_drop length (ofChars rest)).symm
  obtain ⟨back, kept⟩ := exists_letters_behind ends.meets.letters whole
  obtain ⟨span, after, rfl, covered, -⟩ :=
    exists_cut_of_first whole fun other => isUTF8FirstByte_of_letters kept
  refine ⟨before, span, after, rfl, ?_, ?_⟩
  · rw [← front, List.length_take]
    omega
  · rw [← covered, List.length_take, ← behind, List.length_drop]
    omega

end Comparison

/-! ## Texts without their marks -/

open Bytes

theorem Anchor.exists_leftMark (anchor : Anchor) : ∃ mark, anchor.leftMark = ofChars mark := by
  cases anchor with
  | free => exact ⟨[], rfl⟩
  | word => exact ⟨[' '], by decide⟩
  | field => exact ⟨['^'], by decide⟩

theorem Pattern.IsStripped.exists_ofChars {characters : List Char} {core : Bytes}
    {left right : Anchor} (stripped : IsStripped (ofChars characters) left core right) :
    ∃ kept, core = ofChars kept := by
  obtain ⟨mark, written⟩ := left.exists_leftMark
  have whole := stripped.whole
  rw [written] at whole
  obtain ⟨back, -, rest⟩ := exists_cut_of_ofChars whole
  obtain ⟨kept, -, -, same, -⟩ := exists_cut_of_first rest.symm fun byte start => by
    cases right with
    | free => cases start
    | word => cases start; decide
    | field => cases start; decide
  exact ⟨kept, same⟩

theorem Pattern.Reads.exists_ofChars {token : Token} {pattern : Pattern}
    (reads : Reads token pattern) {characters : List Char} (encoded : token.text = ofChars characters) :
    ∃ kept, pattern.text = ofChars kept := by
  cases reads with
  | literal => exact ⟨characters, encoded⟩
  | marked stripped => exact (encoded ▸ stripped).exists_ofChars
  | quotedWord stripped => exact (encoded ▸ stripped).exists_ofChars

end NameSearch
