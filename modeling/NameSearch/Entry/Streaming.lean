import NameSearch.Entry.Reading

/-!
# Reading entries while bytes come in

An input need not be there as a whole before its entries are chosen.  A reader takes one byte at a
time and gives what a line or a record holds as soon as the byte that ends it has come.  A choice
that has all it wants, or meets a fault, is made there and then, whatever would follow.
-/

namespace NameSearch

/-- What one line or record gives: an entry, nothing or a fault. -/
abbrev Delivery := Except ReadFailure (Option Entry)

namespace PlainText

/-- A reader of lines between two bytes. -/
structure Reader where
  /-- The bytes of the current line, last first. -/
  line : Bytes := []
  /-- The number of the current line. -/
  number : Nat := 1

namespace Reader

/-- Read a byte. -/
def step (reader : Reader) (byte : UInt8) : Reader × Option Delivery :=
  if byte = Byte.lineFeed then
    ({ number := reader.number + 1 },
      some (entry reader.number (Bytes.dropReturn reader.line.reverse)))
  else ({ reader with line := byte :: reader.line }, none)

/-- What is left to be given where the input ends or, for a reason, cannot be read on. -/
def last? (reader : Reader) : (reason : Option String) → Option Delivery
  | some reason => some (.error (.line reader.number (.unreadable reason)))
  | none => if reader.line.isEmpty then none else some (entry reader.number reader.line.reverse)

end Reader
end PlainText

namespace Table

/-- What a record gives when the heading, if there is one, has the number zero. -/
def item (headed : Bool) (number : Nat) (record : Csv.Record) : Delivery :=
  if number = 0 then .ok none else entry (faultPlace headed number record) number record

/-- A reader of records between two bytes. -/
structure Reader where
  /-- Whether the first record is a heading. -/
  headed : Bool
  /-- The number of the current record. -/
  number : Nat
  /-- What is missing of a byte order mark, if nothing but the front of one has been read. -/
  mark : Option Bytes := some Csv.byteOrderMark
  /-- The scanner, without the records that have ended. -/
  scanner : Csv.Scanner := {}

namespace Reader

/-- What is missing of a byte order mark behind one more byte. -/
def markBehind (reader : Reader) (byte : UInt8) : Option Bytes :=
  match reader.mark with
  | some (first :: rest) => if byte = first then some rest else none
  | _ => none

/-- The scanner behind one more byte; a byte order mark is counted but not read. -/
def scannerBehind (reader : Reader) (byte : UInt8) : Csv.Scanner :=
  if reader.markBehind byte = some [] then { byte := Csv.byteOrderMark.length }
  else reader.scanner.step byte

/-- Read a byte. -/
def step (reader : Reader) (byte : UInt8) : Reader × Option Delivery :=
  let mark := reader.markBehind byte
  let scanner := reader.scannerBehind byte
  match scanner.records with
  | [] => ({ reader with mark, scanner }, none)
  | record :: _ =>
    ({ reader with mark, scanner := { scanner with records := [] }, number := reader.number + 1 },
      some (item reader.headed reader.number record))

/-- What is left to be given where the input ends or, for a reason, cannot be read on.  An input
that is nothing but a byte order mark is taken for ended. -/
def last? (reader : Reader) : (reason : Option String) → Option Delivery
  | some reason =>
    if reader.mark = some [] then none
    else some (.error (.record (max reader.number 1) (.unreadable reason)))
  | none =>
    if reader.scanner.stage = .outside then none
    else some (item reader.headed reader.number reader.scanner.record)

end Reader
end Table

/-- A reader of entries between two bytes. -/
inductive Reader where
  /-- A reader of the lines of plain text. -/
  | lines (reader : PlainText.Reader)
  /-- A reader of the records of a table. -/
  | table (reader : Table.Reader)

namespace Reader

/-- Read a byte; at most one line or record ends with it. -/
def step : Reader → UInt8 → Reader × Option Delivery
  | lines reader, byte => (lines (reader.step byte).1, (reader.step byte).2)
  | table reader, byte => (table (reader.step byte).1, (reader.step byte).2)

/-- What is left to be given where the input ends or, for a reason, cannot be read on. -/
def last? : Reader → (reason : Option String) → Option Delivery
  | lines reader, reason => reader.last? reason
  | table reader, reason => reader.last? reason

end Reader

/-- The reader in front of an input. -/
def Settings.reader (settings : Settings) : Reader :=
  match settings.layout with
  | .lines => .lines {}
  | .table headed => .table { headed, number := if headed then 0 else 1 }

/-- Entries that are being chosen. -/
structure Choice where
  /-- Which entries are wanted. -/
  isWanted : Entry → Bool
  /-- How many more are chosen at most; zero means any number. -/
  limit : Nat := 0
  /-- How many have been looked at. -/
  scanned : Nat := 0
  /-- Those that have been chosen, last first. -/
  chosen : List Entry := []

namespace Choice

/-- What a choice comes to. -/
abbrev Result := Except ReadFailure Selection

/-- Take what a line or record gives, unless that ends the choice. -/
def take (choice : Choice) : Delivery → Except Result Choice
  | .error failure => .error (.error failure)
  | .ok none => .ok choice
  | .ok (some entry) =>
    let scanned := choice.scanned + 1
    if choice.isWanted entry then
      let chosen := entry :: choice.chosen
      if choice.limit = 1 then .error (.ok ⟨scanned, chosen.reverse⟩)
      else .ok { choice with limit := choice.limit - 1, scanned, chosen }
    else .ok { choice with scanned }

/-- What a choice comes to when nothing more is given. -/
def conclude : Except Result Choice → Result
  | .error result => result
  | .ok choice => .ok ⟨choice.scanned, choice.chosen.reverse⟩

end Choice

/-- A choice among what a reader gives. -/
structure Reading where
  /-- The reader. -/
  reader : Reader
  /-- The choice. -/
  choice : Choice

namespace Reading

/-- Read a byte. -/
def step (reading : Reading) (byte : UInt8) : Except Choice.Result Reading :=
  match reading.reader.step byte with
  | (reader, none) => .ok { reading with reader }
  | (reader, some item) => (reading.choice.take item).map fun choice => { reader, choice }

/-- Read some bytes, unless the choice ends with one of them. -/
def feed (reading : Reading) (bytes : Bytes) : Except Choice.Result Reading := bytes.foldlM step reading

/-- What the choice comes to where the input ends or, for a reason, cannot be read on. -/
def finish (reading : Reading) (reason : Option String) : Choice.Result :=
  Choice.conclude ((reading.reader.last? reason).toList.foldlM Choice.take reading.choice)

/-- What the choice comes to when a whole input is read. -/
def through (reading : Reading) (input : Input) : Choice.Result :=
  match reading.feed input.data with
  | .error result => result
  | .ok reading => reading.finish input.failure

end Reading

namespace Settings

/-- A reading that chooses the entries that satisfy a query. -/
def selecting (settings : Settings) (query : Query) (comparison : Option Comparison) : Reading :=
  ⟨settings.reader, { isWanted := Entry.satisfies settings query comparison, limit := settings.limit }⟩

/-- A reading that chooses all entries. -/
def loading (settings : Settings) : Reading := ⟨settings.reader, { isWanted := fun _ => true }⟩

end Settings
end NameSearch
