import NameSearch.Proofs.Bytes.Encoding

/-!
# Cutting an encoded text at its characters

A byte that may start a character continues none, and no encoding of a character is the front of
another one.  So an encoded text that is cut before a byte that may start a character, or behind
whole characters, is cut between two characters.
-/

namespace NameSearch
namespace Bytes

/-- UTF-8 encoding of some characters. -/
def ofChars (characters : List Char) : Bytes := characters.flatMap String.utf8EncodeChar

@[simp]
theorem ofChars_nil : ofChars [] = [] := rfl

@[simp]
theorem ofChars_cons (character : Char) (later : List Char) :
    ofChars (character :: later) = String.utf8EncodeChar character ++ ofChars later := rfl

@[simp]
theorem ofChars_append (front back : List Char) :
    ofChars (front ++ back) = ofChars front ++ ofChars back :=
  List.flatMap_append

theorem ofString_eq_ofChars (text : String) : ofString text = ofChars text.toList :=
  ofString_eq_flatMap text

theorem length_ofString (text : String) : (ofString text).length = text.utf8ByteSize := by
  rw [ofString, Array.length_toList, ByteArray.size_data, String.size_toByteArray]

/-! ## Single characters -/

theorem utf8EncodeChar_of_ascii {character : Char} (ascii : character.val.toNat < 128) :
    String.utf8EncodeChar character = [character.val.toUInt8] := by
  refine String.utf8EncodeChar_eq_singleton (Char.utf8Size_eq_one_iff.mpr ?_)
  rw [UInt32.le_iff_toNat_le]
  exact Nat.le_of_lt_succ ascii

theorem isUTF8FirstByte_of_ascii {byte : UInt8} (ascii : byte.toNat < 128) :
    byte.IsUTF8FirstByte := by
  have table : ∀ value < 128, (UInt8.ofNat value).IsUTF8FirstByte := by decide
  simpa using table byte.toNat ascii

/-- Of the bytes of a character only the first may start one. -/
theorem front_eq_nil_of_utf8EncodeChar_eq {character : Char} {front rest : Bytes} {byte : UInt8}
    (encoded : String.utf8EncodeChar character = front ++ byte :: rest)
    (first : byte.IsUTF8FirstByte) : front = [] := by
  have inside : front.length < (String.utf8EncodeChar character).length := by
    rw [encoded, List.length_append, List.length_cons]
    omega
  have here : (String.utf8EncodeChar character)[front.length] = byte := by
    simp [encoded]
  rw [← here, UInt8.isUTF8FirstByte_getElem_utf8EncodeChar] at first
  exact List.length_eq_zero_iff.mp first

/-! ## Cuts -/

theorem isUTF8FirstByte_of_head? {characters : List Char} {byte : UInt8}
    (head : (ofChars characters).head? = some byte) : byte.IsUTF8FirstByte := by
  cases characters with
  | nil => cases head
  | cons character later =>
      obtain ⟨first, rest, encoded⟩ :=
        List.exists_cons_of_ne_nil (String.utf8EncodeChar_ne_nil (c := character))
      have starts := UInt8.isUTF8FirstByte_getElem_zero_utf8EncodeChar (c := character)
      simp only [encoded, List.getElem_cons_zero] at starts
      rw [ofChars_cons, encoded, List.cons_append, List.head?_cons, Option.some.injEq] at head
      rwa [← head]

/-- A cut before a byte that may start a character, or at the end, is one between characters. -/
theorem exists_cut_of_first {characters : List Char} {before rest : Bytes}
    (cut : ofChars characters = before ++ rest)
    (first : ∀ byte, rest.head? = some byte → byte.IsUTF8FirstByte) :
    ∃ front back, characters = front ++ back ∧ before = ofChars front ∧ rest = ofChars back := by
  induction characters generalizing before with
  | nil =>
      obtain ⟨rfl, rfl⟩ := List.append_eq_nil_iff.mp cut.symm
      exact ⟨[], [], rfl, rfl, rfl⟩
  | cons character later induction =>
      rw [ofChars_cons, List.append_eq_append_iff] at cut
      rcases cut with ⟨behind, rfl, cut⟩ | ⟨behind, encoded, rfl⟩
      · obtain ⟨front, back, rfl, rfl, rfl⟩ := induction cut
        exact ⟨character :: front, back, rfl, rfl, rfl⟩
      · cases behind with
        | nil => exact ⟨[character], later, rfl, by simpa using encoded.symm, rfl⟩
        | cons byte behind =>
            obtain rfl := front_eq_nil_of_utf8EncodeChar_eq encoded (first byte rfl)
            exact ⟨[], character :: later, rfl, rfl, by rw [ofChars_cons, encoded]; rfl⟩

theorem eq_cons_of_utf8EncodeChar_append {character : Char} {characters : List Char} {rest : Bytes}
    (cut : ofChars characters = String.utf8EncodeChar character ++ rest) :
    ∃ later, characters = character :: later ∧ rest = ofChars later := by
  cases characters with
  | nil => exact absurd (List.append_eq_nil_iff.mp cut.symm).1 String.utf8EncodeChar_ne_nil
  | cons other later =>
      rw [ofChars_cons] at cut
      have read : some other = some character := by
        rw [← ByteArray.utf8DecodeChar?_utf8EncodeChar_append (b := (ofChars later).toByteArray),
          ← ByteArray.utf8DecodeChar?_utf8EncodeChar_append (b := rest.toByteArray),
          ← List.toByteArray_append, ← List.toByteArray_append, cut]
      obtain rfl := Option.some.inj read
      exact ⟨later, rfl, (List.append_cancel_left cut).symm⟩

theorem exists_cut_of_ofChars {front characters : List Char} {rest : Bytes}
    (cut : ofChars characters = ofChars front ++ rest) :
    ∃ back, characters = front ++ back ∧ rest = ofChars back := by
  induction front generalizing characters with
  | nil => exact ⟨characters, rfl, cut.symm⟩
  | cons character front induction =>
      rw [ofChars_cons, List.append_assoc] at cut
      obtain ⟨later, rfl, behind⟩ := eq_cons_of_utf8EncodeChar_append cut
      obtain ⟨back, rfl, rfl⟩ := induction behind.symm
      exact ⟨back, rfl, rfl⟩

theorem isValid_length_ofChars {text : String} {front back : List Char}
    (whole : text.toList = front ++ back) :
    (String.Pos.Raw.mk (ofChars front).length).IsValid text := by
  refine String.Pos.Raw.isValid_iff_exists_append.mpr
    ⟨String.ofList front, String.ofList back, ?_, ?_⟩
  · rw [← String.ofList_append, ← whole, String.ofList_toList]
  · rw [String.Pos.Raw.ext_iff, String.byteIdx_rawEndPos, ← length_ofString, ofString_eq_ofChars,
      String.toList_ofList]

end Bytes
end NameSearch
