import Mathlib.Data.List.Forall2
import NameSearch.Entry.Reading
import NameSearch.Export
import NameSearch.Proofs.Csv.Placing
import NameSearch.Proofs.Entry.Scanning
import NameSearch.Report

/-!
# Lines of the entries of a table

The line of an entry is the one its record has been placed on.  It is the line of the first byte of
the record where no line feed is passed over in front of it; behind a carriage return with a line
feed and behind blank lines it is an earlier one.
-/

namespace NameSearch

theorem Feed.load_deliver (entry : Entry) (feed : Feed) :
    (deliver (.ok (some entry)) feed).load = feed.load.map (entry :: ·) := by
  rw [deliver, load, load]
  cases feed.failure <;> rfl

namespace Table

/-- What some records give, the first of which has the given number. -/
def items (headed : Bool) (number : Nat) (records : List Csv.Record) :
    List (Except ReadFailure (Option Entry)) :=
  (records.zipIdx number).map fun (record, number) =>
    entry (faultPlace headed number record) number record

@[simp]
theorem items_cons (headed : Bool) (number : Nat) (record : Csv.Record)
    (later : List Csv.Record) :
    items headed number (record :: later) =
      entry (faultPlace headed number record) number record ::
        items headed (number + 1) later := rfl

theorem feed_eq (headed : Bool) (input : Input) :
    let records := (Csv.records (Csv.received input)).drop (if headed then 1 else 0)
    feed headed input =
      Feed.ofItems (items headed 1 records)
        ((Csv.received input).failure.map fun reason =>
          .record (records.length + 1) (.unreadable reason)) :=
  rfl

/-- Where nothing stops a feed, there is an entry for each record, on the line of its place. -/
theorem lines_of_load {headed : Bool} {number : Nat} {records : List Csv.Record}
    {failure : Option ReadFailure} {entries : List Entry}
    (loaded : (Feed.ofItems (items headed number records) failure).load = .ok entries) :
    failure = none ∧ entries.map Entry.line = records.map fun record => record.place.line := by
  induction records generalizing number entries with
  | nil =>
      cases failure with
      | none =>
          obtain rfl := Except.ok.inj loaded
          exact ⟨rfl, rfl⟩
      | some failure => cases loaded
  | cons record later induction =>
      rw [items_cons, Feed.ofItems_cons, entry] at loaded
      split at loaded
      · cases loaded
      · next fields _ =>
          rw [Feed.load_deliver] at loaded
          cases rest : (Feed.ofItems (items headed (number + 1) later) failure).load with
          | error stop =>
              rw [rest] at loaded
              cases loaded
          | ok behind =>
              rw [rest] at loaded
              obtain rfl := Except.ok.inj loaded
              obtain ⟨unfailing, same⟩ := induction rest
              exact ⟨unfailing, congrArg (record.place.line :: ·) same⟩

theorem lines_of_load_feed {headed : Bool} {input : Input} {entries : List Entry}
    (loaded : (feed headed input).load = .ok entries) :
    entries.map Entry.line =
      ((Csv.scan input.data).finish.map fun record => record.place.line).drop
        (if headed then 1 else 0) := by
  rw [feed_eq] at loaded
  obtain ⟨unfailing, same⟩ := lines_of_load loaded
  have readable : (Csv.received input).failure = none := Option.map_eq_none_iff.mp unfailing
  have data : (Csv.received input).data = input.data := by
    rw [Csv.received]
    split <;> rfl
  rw [same, Csv.records, readable, data, List.map_drop]
  rfl

end Table

/-- Each entry of a table starts with a byte that is no line end, and is told to be on the line of
that byte, less the line feeds that are passed over in front of it; so its line is told where none
is passed over and in no other place.  The number that is told is the one that reports and tables
lead with. -/
theorem readAll_table_lines (settings : Settings) {headed : Bool}
    (inTable : settings.layout = .table headed) {input : Input} {entries : List Entry}
    (read : settings.readAll input = .ok entries) :
    List.Forall₂
        (fun start entry =>
          (∃ byte later, input.data = start.1 ++ byte :: later ∧ Byte.isLineEnd byte = false) ∧
          entry.line + (Csv.passedOver start.2 start.1).count Byte.lineFeed =
            1 + start.1.count Byte.lineFeed ∧
          (entry.line = 1 + start.1.count Byte.lineFeed ↔
            Byte.lineFeed ∉ Csv.passedOver start.2 start.1))
        ((Csv.starts input.data).zipIdx.drop (if headed then 1 else 0)) entries ∧
      ∀ entry ∈ entries,
        (∃ fields, Report.detailed entry = s!"Line {entry.line}:\n" ++ fields) ∧
          ExportFormat.table.written entry =
            Csv.writtenRecord
              (Bytes.ofString (toString entry.line) :: entry.fields.map Bytes.ofString) := by
  rw [Settings.readAll, Settings.feed, inTable] at read
  refine ⟨?_, fun entry _ => ⟨⟨_, String.append_assoc⟩, rfl⟩⟩
  have told := List.forall₂_drop (if headed then 1 else 0) (Csv.forall₂_starts input.data)
  rw [← Table.lines_of_load_feed read, List.forall₂_map_right_iff] at told
  have starts : ∀ start ∈ (Csv.starts input.data).zipIdx.drop (if headed then 1 else 0),
      ∃ byte later, input.data = start.1 ++ byte :: later ∧ Byte.isLineEnd byte = false := by
    intro start member
    exact Csv.exists_of_mem_starts (List.fst_mem_of_mem_zipIdx (List.mem_of_mem_drop member))
  apply ((List.forall₂_and_left _ _).mpr ⟨starts, told⟩).imp
  rintro start entry ⟨opens, line⟩
  refine ⟨opens, line, ?_⟩
  rw [Csv.IsTold] at line
  rw [← List.count_eq_zero, ← line]
  omega

/-- Behind a heading, a record on its own line, one behind a carriage return and a blank line, and
one behind a record that goes over two lines. -/
theorem readAll_table_lines_mixed :
    let settings : Settings := { layout := .table true }
    let input : Input := ⟨Bytes.ofString "h\nx\r\n\n\"p\nq\"\r\ny", none⟩
    let entries : List Entry := [⟨2, ["x"]⟩, ⟨2, ["p\nq"]⟩, ⟨5, ["y"]⟩]
    let starts := [(Bytes.ofString "h\n", 1), (Bytes.ofString "h\nx\r\n\n", 2),
      (Bytes.ofString "h\nx\r\n\n\"p\nq\"\r\n", 3)]
    settings.layout = .table true ∧ settings.readAll input = .ok entries ∧
      (Csv.starts input.data).zipIdx.drop 1 = starts ∧
      List.Forall₂
        (fun start entry =>
          entry.line + (Csv.passedOver start.2 start.1).count Byte.lineFeed =
            1 + start.1.count Byte.lineFeed)
        starts entries := by
  intro settings input entries starts
  have read : settings.readAll input = .ok entries := by decide +kernel
  have cut : (Csv.starts input.data).zipIdx.drop 1 = starts := by decide +kernel
  obtain ⟨told, -⟩ := readAll_table_lines settings rfl read
  rw [if_pos rfl, cut] at told
  exact ⟨rfl, read, cut, told.imp fun _ _ each => each.2.1⟩

/-- The second record starts on the second line, and is told to be on the first. -/
theorem readAll_table_lines_behind_return :
    let settings : Settings := { layout := .table false }
    let input : Input := ⟨Bytes.ofString "a\r\nb\r\n", none⟩
    settings.readAll input = .ok [⟨1, ["a"]⟩, ⟨1, ["b"]⟩] ∧
      Csv.starts input.data = [[], Bytes.ofString "a\r\n"] ∧
      (1 : Nat) ≠ 1 + (Bytes.ofString "a\r\n").count Byte.lineFeed := by
  decide +kernel

end NameSearch
