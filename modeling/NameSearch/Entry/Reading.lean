import NameSearch.Bytes.Lines
import NameSearch.Csv.Record
import NameSearch.Entry.Feed
import NameSearch.Text

/-!
# Reading entries

In plain text every line that is not blank is an entry; blank lines are counted but not delivered.
In a table every record is an entry, numbered by the line it is placed on.
-/

namespace NameSearch

namespace PlainText

/-- The lines of an input.  The bytes behind the last line feed are a line where the input ends
there, and lost where it cannot be read on. -/
def lines (input : Input) : List Bytes :=
  let (ended, rest) := Bytes.lines input.data
  ended.map Bytes.dropReturn ++ if input.failure.isSome || rest.isEmpty then [] else [rest]

/-- What a line with its number gives. -/
def entry (number : Nat) (line : Bytes) : Except ReadFailure (Option Entry) :=
  match line.text? with
  | none => .error (.line number .notText)
  | some text => .ok (if Text.isBlank text then none else some ⟨number, [text]⟩)

/-- The entries of an input in plain text. -/
def feed (input : Input) : Feed :=
  let lines := lines input
  Feed.ofItems ((lines.zipIdx 1).map fun (line, number) => entry number line)
    (input.failure.map fun reason => .line (lines.length + 1) (.unreadable reason))

end PlainText

namespace Table

/-- The texts of some fields, or the index of the first that is not valid UTF-8 and how far it
is. -/
def texts (index : Nat) : List Bytes → Except (Nat × Nat) (List String)
  | [] => .ok []
  | field :: later =>
    match field.text? with
    | none => .error (index, field.validLength)
    | some text =>
      match texts (index + 1) later with
      | .error fault => .error fault
      | .ok rest => .ok (text :: rest)

/-- What a record with its number gives, when its faults are told to be at `place`. -/
def entry (place : Place) (number : Nat) (record : Csv.Record) :
    Except ReadFailure (Option Entry) :=
  match texts 0 record.fields with
  | .error (field, validLength) => .error (.record number (.notText place field validLength))
  | .ok fields => .ok (some ⟨record.place.line, fields⟩)

/-- The place that faults in a record are told to be at: the record that follows the heading is
told to be at the start of the input. -/
def faultPlace (headed : Bool) (number : Nat) (record : Csv.Record) : Place :=
  if headed && number == 1 then {} else record.place

/-- The entries of an input of comma-separated values. -/
def feed (headed : Bool) (input : Input) : Feed :=
  let input := Csv.received input
  let records := (Csv.records input).drop (if headed then 1 else 0)
  Feed.ofItems
    ((records.zipIdx 1).map fun (record, number) =>
      entry (faultPlace headed number record) number record)
    (input.failure.map fun reason => .record (records.length + 1) (.unreadable reason))

end Table

namespace Settings

/-- The entries of an input. -/
def feed (settings : Settings) (input : Input) : Feed :=
  match settings.layout with
  | .lines => PlainText.feed input
  | .table headed => Table.feed headed input

/-- Read all entries of an input. -/
def readAll (settings : Settings) (input : Input) : Except ReadFailure (List Entry) :=
  (settings.feed input).load

/-- Choose the entries of an input that satisfy a query while reading it. -/
def select (settings : Settings) (query : Query) (comparison : Option Comparison)
    (input : Input) : Except ReadFailure Selection :=
  (settings.feed input).scan settings.limit (Entry.satisfies settings query comparison)

end Settings
end NameSearch
