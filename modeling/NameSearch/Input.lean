import NameSearch.Bytes.Utf8

/-!
# Inputs and what can be wrong with them

An input is the bytes that can be read from it and, where reading does not reach its end, the
reason.  A reader meets faults in the order of the bytes, so whatever stands in front of a fault is
still delivered.
-/

namespace NameSearch

/-- What can be read from a file or a terminal. -/
structure Input where
  /-- The bytes in order. -/
  data : Bytes
  /-- Why nothing more can be read after them, unless the input ends there. -/
  failure : Option String := none
  deriving DecidableEq

/-- What can be wrong with a line. -/
inductive LineFault where
  /-- The line is not valid UTF-8. -/
  | notText
  /-- The input could not be read to the end of the line. -/
  | unreadable (reason : String)
  deriving DecidableEq

/-- Description of a fault in a line. -/
def LineFault.message : LineFault → String
  | notText => "stream did not contain valid UTF-8"
  | unreadable reason => reason

/-- A place in the input of comma-separated values, as it is told in messages. -/
structure Place where
  /-- How many records have been read before. -/
  record : Nat := 0
  /-- Number of the line, counted from one. -/
  line : Nat := 1
  /-- How many bytes have been read before. -/
  byte : Nat := 0
  deriving DecidableEq

/-- What can be wrong with a record. -/
inductive RecordFault where
  /-- The field with this index is not valid UTF-8 after its first `validLength` bytes. -/
  | notText (place : Place) (field validLength : Nat)
  /-- The input could not be read to the end of the record. -/
  | unreadable (reason : String)
  deriving DecidableEq

/-- Description of a fault in a record. -/
def RecordFault.message : RecordFault → String
  | notText place field validLength =>
    s!"CSV parse error: record {place.record} (line {place.line}, field: {field}, "
      ++ s!"byte: {place.byte}): invalid utf-8: invalid UTF-8 in field {field} "
      ++ s!"near byte index {validLength}"
  | unreadable reason => reason

/-- Why entries could not be read. -/
inductive ReadFailure where
  /-- A line has a fault; lines are counted from one. -/
  | line (number : Nat) (fault : LineFault)
  /-- A record has a fault; records are counted from one, without the heading. -/
  | record (number : Nat) (fault : RecordFault)
  deriving DecidableEq

namespace ReadFailure

/-- What went wrong. -/
def message : ReadFailure → String
  | line number _ => s!"Failed to read input line {number}"
  | record number _ => s!"Failed to read CSV record {number}"

/-- Why it went wrong. -/
def cause : ReadFailure → String
  | line _ fault => fault.message
  | record _ fault => fault.message

end ReadFailure
end NameSearch
