import NameSearch.Bytes

/-!
# Reading bytes as UTF-8

Bytes are text when they are the encoding of some string of characters; that string is then
unique.  Where they are not, `validLength` tells how far they could be read.
-/

namespace NameSearch
namespace Bytes

/-- The text that the bytes encode, if they are valid UTF-8. -/
def text? (bytes : Bytes) : Option String := String.fromUTF8? bytes.toByteArray

theorem toByteArray_ofString (text : String) : (ofString text).toByteArray = text.toByteArray := by
  apply ByteArray.ext
  simp [ofString]

@[simp]
theorem text?_ofString (text : String) : (ofString text).text? = some text := by
  simp only [text?, toByteArray_ofString, String.fromUTF8?]
  rw [dif_pos text.isValidUTF8]
  rfl

theorem ofString_of_text? {bytes : Bytes} {text : String} (readable : bytes.text? = some text) :
    ofString text = bytes := by
  simp only [text?, String.fromUTF8?] at readable
  split at readable
  · simp only [Option.some.injEq] at readable
    subst readable
    simp [ofString, String.fromUTF8]
  · cases readable

theorem text?_eq_some_iff {bytes : Bytes} {text : String} :
    bytes.text? = some text ↔ ofString text = bytes :=
  ⟨ofString_of_text?, fun encoded => encoded ▸ text?_ofString text⟩

/-- Index after the last character that can be read in order from `position`. -/
def validEnd (bytes : ByteArray) (position : Nat) : Nat :=
  match found : bytes.utf8DecodeChar? position with
  | none => position
  | some character =>
    have := ByteArray.le_size_of_utf8DecodeChar?_eq_some found
    have := character.utf8Size_pos
    validEnd bytes (position + character.utf8Size)
termination_by bytes.size - position

/-- Length of the longest initial part that is valid UTF-8. -/
def validLength (bytes : Bytes) : Nat := validEnd bytes.toByteArray 0

end Bytes
end NameSearch
