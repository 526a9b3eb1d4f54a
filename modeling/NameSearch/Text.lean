/-!
# Characters and texts

Blank texts, the line ends that are left out of them, and the form in which a field is shown.
-/

namespace NameSearch
namespace Text

/-- The characters with the Unicode property White_Space. -/
def isSpace (character : Char) : Bool :=
  let code := character.val
  (9 ≤ code && code ≤ 13) || code == 0x20 || code == 0x85 || code == 0xA0 || code == 0x1680
    || (0x2000 ≤ code && code ≤ 0x200A) || code == 0x2028 || code == 0x2029 || code == 0x202F
    || code == 0x205F || code == 0x3000

/-- Whether a text has nothing but white space in it. -/
def isBlank (text : String) : Bool := text.toList.all isSpace

/-- Carriage return and line feed. -/
def isLineEnd (character : Char) : Bool := character == '\r' || character == '\n'

/-- Drop every carriage return and line feed from the end. -/
def dropLineEnds (text : String) : String :=
  String.ofList (text.toList.reverse.dropWhile isLineEnd).reverse

/-- What a character is shown as: the separator as a bar between spaces. -/
def shownAs (character : Char) : List Char :=
  if character = '\x01' then [' ', '|', ' '] else [character]

/-- A field as it is shown to a reader. -/
def shown (field : String) : String := String.ofList (field.toList.flatMap shownAs)

end Text
end NameSearch
