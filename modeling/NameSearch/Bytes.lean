/-!
# Byte strings

Text is compared, measured and cut byte by byte, in its UTF-8 encoding.  Positions, offsets and
lengths therefore count bytes everywhere in the library; only blanks and printed reports are
stated on characters.
-/

namespace NameSearch

/-- A string of bytes; for text, its UTF-8 encoding. -/
abbrev Bytes := List UInt8

namespace Byte

/-- Byte that stands between the fields of an entry searched as one text. -/
def separator : UInt8 := 1

/-- Horizontal tab. -/
def tab : UInt8 := 9

/-- Line feed, which ends every line. -/
def lineFeed : UInt8 := 10

/-- Carriage return. -/
def carriageReturn : UInt8 := 13

/-- Space. -/
def space : UInt8 := 32

/-- Double quotation mark. -/
def doubleQuote : UInt8 := 34

/-- Apostrophe, the single quotation mark. -/
def singleQuote : UInt8 := 39

/-- Comma. -/
def comma : UInt8 := 44

/-- The ASCII uppercase letters. -/
def isUpper (byte : UInt8) : Bool := 65 ≤ byte && byte ≤ 90

/-- The ASCII lowercase letters. -/
def isLower (byte : UInt8) : Bool := 97 ≤ byte && byte ≤ 122

/-- ASCII lowercase form of a byte; every byte that is no uppercase letter is kept. -/
def lower (byte : UInt8) : UInt8 := if isUpper byte then byte + 32 else byte

/-- ASCII uppercase form of a byte; every byte that is no lowercase letter is kept. -/
def upper (byte : UInt8) : UInt8 := if isLower byte then byte - 32 else byte

/-- Line ends: carriage return and line feed. -/
def isLineEnd (byte : UInt8) : Bool := byte == carriageReturn || byte == lineFeed

end Byte

namespace Bytes

/-- UTF-8 encoding of a text. -/
def ofString (text : String) : Bytes := text.toByteArray.data.toList

@[simp]
theorem ofString_append (front back : String) :
    ofString (front ++ back) = ofString front ++ ofString back := by
  simp [ofString, String.toByteArray_append]

/-- ASCII lowercase form, byte by byte. -/
def lower (text : Bytes) : Bytes := text.map Byte.lower

end Bytes

end NameSearch
