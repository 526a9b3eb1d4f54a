import NameSearch.Input

/-!
# Records of comma-separated values

A scanner goes over the bytes once.  Commas end fields, line ends end records, and a quotation mark
at the start of a field quotes it: commas and line ends inside are text, and a mark written twice
stands for itself.  Records may differ in width.

A record is placed where the scanner stood when the record before it had ended.  Line ends that are
passed over in front of a record are counted with that record only by the records after it.
-/

namespace NameSearch
namespace Csv

/-- A record as it was scanned. -/
structure Record where
  /-- Where the scanner started on the record. -/
  place : Place
  /-- The bytes of the fields in order. -/
  fields : List Bytes
  deriving DecidableEq

/-- Where in a record the scanner stands. -/
inductive Stage where
  /-- Between records. -/
  | outside
  /-- At the start of a field. -/
  | fieldStart
  /-- In a field without quotation marks, or after the quoted part of one. -/
  | plain
  /-- Inside quotation marks. -/
  | quoted
  /-- After a quotation mark inside quotation marks. -/
  | afterQuote
  deriving DecidableEq

/-- State of the scanner between two bytes. -/
structure Scanner where
  /-- Where in a record the scanner stands. -/
  stage : Stage := .outside
  /-- Bytes of the current field, last first. -/
  field : Bytes := []
  /-- Fields of the current record that have ended, last first. -/
  fields : List Bytes := []
  /-- Where the current record was started on. -/
  start : Place := {}
  /-- Number of the line the scanner is on. -/
  line : Nat := 1
  /-- How many bytes have been read. -/
  byte : Nat := 0
  /-- Records that have ended, last first. -/
  records : List Record := []
  deriving DecidableEq

namespace Scanner

/-- Count a byte that has been read. -/
def count (scanner : Scanner) (byte : UInt8) : Scanner :=
  { scanner with
    line := if byte = Byte.lineFeed then scanner.line + 1 else scanner.line
    byte := scanner.byte + 1 }

/-- Add a byte to the current field. -/
def push (scanner : Scanner) (stage : Stage) (byte : UInt8) : Scanner :=
  { scanner with stage, field := byte :: scanner.field }

/-- End the current field; another one starts. -/
def endField (scanner : Scanner) : Scanner :=
  { scanner with
    stage := .fieldStart
    field := []
    fields := scanner.field.reverse :: scanner.fields }

/-- The record that ends with the current field. -/
def record (scanner : Scanner) : Record :=
  ⟨scanner.start, (scanner.field.reverse :: scanner.fields).reverse⟩

/-- End the current record; the next one is placed here. -/
def endRecord (scanner : Scanner) : Scanner :=
  { scanner with
    stage := .outside
    field := []
    fields := []
    start := ⟨scanner.start.record + 1, scanner.line, scanner.byte⟩
    records := scanner.record :: scanner.records }

/-- Read a byte outside quotation marks: it ends the field, the record, or is text. -/
def readPlain (scanner : Scanner) (byte : UInt8) : Scanner :=
  if byte = Byte.comma then scanner.endField
  else if Byte.isLineEnd byte then scanner.endRecord
  else scanner.push .plain byte

/-- Read the first byte of a field. -/
def readFirst (scanner : Scanner) (byte : UInt8) : Scanner :=
  if byte = Byte.doubleQuote then { scanner with stage := .quoted } else scanner.readPlain byte

/-- Read a byte. -/
def step (scanner : Scanner) (byte : UInt8) : Scanner :=
  let scanner := scanner.count byte
  match scanner.stage with
  | .outside => if Byte.isLineEnd byte then scanner else scanner.readFirst byte
  | .fieldStart => scanner.readFirst byte
  | .plain => scanner.readPlain byte
  | .quoted =>
    if byte = Byte.doubleQuote then { scanner with stage := .afterQuote }
    else scanner.push .quoted byte
  | .afterQuote =>
    if byte = Byte.doubleQuote then scanner.push .quoted byte else scanner.readPlain byte

/-- The records that have ended, in order. -/
def ended (scanner : Scanner) : List Record := scanner.records.reverse

/-- All records once the input has ended, which also ends the record in progress. -/
def finish (scanner : Scanner) : List Record :=
  if scanner.stage = .outside then scanner.ended else scanner.endRecord.ended

end Scanner

/-- The mark that may stand in front of UTF-8 text. -/
def byteOrderMark : Bytes := [0xEF, 0xBB, 0xBF]

/-- The scanner in front of some data, and the data it reads: a byte order mark is counted but
not read. -/
def skipMark (data : Bytes) : Scanner × Bytes :=
  match byteOrderMark.isPrefixOf? data with
  | some rest => ({ byte := byteOrderMark.length }, rest)
  | none => ({}, data)

/-- The scanner after all the data. -/
def scan (data : Bytes) : Scanner :=
  let (scanner, rest) := skipMark data
  rest.foldl Scanner.step scanner

/-- What the scanner gets of an input: one that holds nothing but a byte order mark is taken for
ended, even where it cannot be read on. -/
def received (input : Input) : Input :=
  if input.data = byteOrderMark then { input with failure := none } else input

/-- The records of an input; where reading fails, the record in progress is lost. -/
def records (input : Input) : List Record :=
  let scanner := scan input.data
  if input.failure.isSome then scanner.ended else scanner.finish

end Csv
end NameSearch
