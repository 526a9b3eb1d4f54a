import NameSearch.Bytes

/-!
# Writing comma-separated values

A field is quoted only where it holds a comma, a quotation mark or a line end; a quotation mark in
a quoted field is written twice.
-/

namespace NameSearch
namespace Csv

/-- Bytes that a field can hold only in quotation marks. -/
def needsQuotes (byte : UInt8) : Bool :=
  byte == Byte.comma || byte == Byte.doubleQuote || Byte.isLineEnd byte

/-- A quotation mark is written twice, any other byte once. -/
def doubled (byte : UInt8) : Bytes :=
  if byte = Byte.doubleQuote then [byte, byte] else [byte]

/-- A field as it is written. -/
def writtenField (field : Bytes) : Bytes :=
  if field.any needsQuotes then
    Byte.doubleQuote :: field.flatMap doubled ++ [Byte.doubleQuote]
  else field

/-- A record as it is written, with the line feed that ends it. -/
def writtenRecord (fields : List Bytes) : Bytes :=
  [Byte.comma].intercalate (fields.map writtenField) ++ [Byte.lineFeed]

end Csv
end NameSearch
