import NameSearch.Bytes

/-!
# Characters and their bytes

A character outside ASCII has no ASCII byte in its encoding.  So an ASCII byte that stands in an
encoded text is a character of that text.
-/

namespace NameSearch
namespace Bytes

theorem ofString_ofList (characters : List Char) :
    ofString (String.ofList characters) = characters.flatMap String.utf8EncodeChar := by
  simp [ofString, String.toByteArray_ofList, List.utf8Encode]

theorem ofString_eq_flatMap (text : String) :
    ofString text = text.toList.flatMap String.utf8EncodeChar := by
  rw [← ofString_ofList, String.ofList_toList]

theorem val_eq_of_mem_utf8EncodeChar {byte : UInt8} (ascii : byte.toNat < 128) {character : Char}
    (member : byte ∈ String.utf8EncodeChar character) :
    character.val.toNat = byte.toNat := by
  rw [String.utf8EncodeChar] at member
  generalize character.val.toNat = value at member ⊢
  repeat' split at member
  all_goals
    simp only [List.mem_cons, List.not_mem_nil, or_false, ← UInt8.toNat_inj,
      UInt8.toNat_ofNat'] at member
    omega

/-- An ASCII byte stands in an encoded text just where its character stands in the text. -/
theorem mem_ofString_iff {byte : UInt8} (ascii : byte.toNat < 128) {character : Char}
    (encoded : byte ∈ String.utf8EncodeChar character) {text : String} :
    byte ∈ ofString text ↔ character ∈ text.toList := by
  rw [ofString_eq_flatMap, List.mem_flatMap]
  constructor
  · rintro ⟨other, inside, member⟩
    have same : other.val = character.val := by
      rw [← UInt32.toNat_inj, val_eq_of_mem_utf8EncodeChar ascii member,
        val_eq_of_mem_utf8EncodeChar ascii encoded]
    rwa [Char.ext same] at inside
  · intro inside
    exact ⟨character, inside, encoded⟩

theorem lineFeed_mem_ofString_iff {text : String} :
    Byte.lineFeed ∈ ofString text ↔ '\n' ∈ text.toList :=
  mem_ofString_iff (by decide) (by decide)

end Bytes
end NameSearch
