import NameSearch.Export
import NameSearch.Proofs.Bytes.Encoding
import NameSearch.Proofs.Csv.Rereading
import NameSearch.Proofs.Entry.Scanning
import NameSearch.Proofs.Saving

/-!
# Reading exported tables

A table that entries were exported to is read back as one entry for each of them: the number of its
line as the first field, then its fields as they were.  What an entry is placed on is the line of
the table on which its record starts.
-/

namespace NameSearch

/-! ## Numbers in decimal notation -/

theorem utf8EncodeChar_of_isDigit {digit : Char} (isDigit : digit.isDigit = true) :
    ∃ byte, String.utf8EncodeChar digit = [byte] ∧ byte ≠ 0xEF := by
  simp only [Char.isDigit, Bool.and_eq_true, decide_eq_true_eq, UInt32.le_iff_toNat_le] at isDigit
  obtain ⟨-, high⟩ := isDigit
  have small : digit.val.toNat ≤ 57 := high
  refine ⟨UInt8.ofNat digit.val.toNat, ?_, ?_⟩
  · rw [String.utf8EncodeChar, if_pos (by omega)]
  · intro marked
    have value : digit.val.toNat % 256 = 0xEF := congrArg UInt8.toNat marked
    omega

namespace ExportFormat

theorem hasHead_tableRecord (entry : Entry) : Csv.HasHead (tableRecord entry) := by
  have digits : ∀ digit ∈ Nat.toDigits 10 entry.line, digit.isDigit = true :=
    fun digit member => Nat.isDigit_of_mem_toDigits (by decide) (by decide) member
  cases written : Nat.toDigits 10 entry.line with
  | nil => exact absurd written Nat.toDigits_ne_nil
  | cons first later =>
      rw [written] at digits
      obtain ⟨byte, encoded, unmarked⟩ :=
        utf8EncodeChar_of_isDigit (digits first List.mem_cons_self)
      refine ⟨byte, later.flatMap String.utf8EncodeChar, entry.fields.map Bytes.ofString, ?_,
        unmarked⟩
      have number : toString entry.line = String.ofList (first :: later) :=
        congrArg String.ofList written
      rw [tableRecord, number, Bytes.ofString_ofList, List.flatMap_cons, encoded]
      rfl

theorem content_table (entries : List Entry) :
    table.content entries = (entries.map tableRecord).flatMap Csv.writtenRecord := by
  rw [content, List.flatMap_map]
  rfl

end ExportFormat

/-! ## Entries of a table -/

theorem Table.texts_map_ofString (index : Nat) (fields : List String) :
    texts index (fields.map Bytes.ofString) = .ok fields := by
  induction fields generalizing index with
  | nil => rfl
  | cons field later induction => simp [texts, induction]

theorem Feed.ofItems_ok (entries : List Entry) :
    ofItems (entries.map fun entry => .ok (some entry)) none = ⟨entries, none⟩ := by
  induction entries with
  | nil => rfl
  | cons entry later induction =>
      rw [List.map_cons, ofItems_cons, induction]
      rfl

/-- What an exported entry is read back as when its record starts on the given line. -/
def Entry.reread (line : Nat) (entry : Entry) : Entry :=
  ⟨line, toString entry.line :: entry.fields⟩

/-- What exported entries are read back as when the first record starts on the given line. -/
def rereadFrom (line : Nat) : List Entry → List Entry
  | [] => []
  | entry :: later =>
    entry.reread line ::
      rereadFrom (line + (ExportFormat.table.written entry).count Byte.lineFeed) later

theorem rereadFrom_eq_mapIdx (line : Nat) (entries : List Entry) :
    rereadFrom line entries = entries.mapIdx fun index entry =>
      entry.reread
        (line + (ExportFormat.table.content (entries.take index)).count Byte.lineFeed) := by
  induction entries generalizing line with
  | nil => rfl
  | cons entry later induction =>
      rw [rereadFrom, List.mapIdx_cons, induction]
      simp [ExportFormat.content, Nat.add_assoc]

theorem items_recordsFrom (place : Place) (number : Nat) (entries : List Entry) :
    ((Csv.recordsFrom place (entries.map ExportFormat.tableRecord)).zipIdx number).map
        (fun (record, number) => Table.entry (Table.faultPlace false number record) number record) =
      (rereadFrom place.line entries).map fun entry => .ok (some entry) := by
  induction entries generalizing place number with
  | nil => rfl
  | cons entry later induction =>
      have here : Table.entry place number ⟨place, ExportFormat.tableRecord entry⟩ =
          .ok (some (entry.reread place.line)) := by
        have fields : ExportFormat.tableRecord entry =
            (toString entry.line :: entry.fields).map Bytes.ofString := rfl
        simp only [Table.entry, fields, Table.texts_map_ofString, Entry.reread]
      rw [List.map_cons, Csv.recordsFrom, List.zipIdx_cons, List.map_cons, induction, rereadFrom,
        List.map_cons]
      exact List.cons_eq_cons.mpr ⟨here, rfl⟩

/-- Reading a table delivers the entries that were exported to it, and nothing stops it. -/
theorem Table.feed_content (entries : List Entry) :
    feed false ⟨ExportFormat.table.content entries, none⟩ = ⟨rereadFrom 1 entries, none⟩ := by
  have heads : ∀ fields ∈ entries.map ExportFormat.tableRecord, Csv.HasHead fields := by
    intro fields member
    obtain ⟨entry, -, rfl⟩ := List.mem_map.mp member
    exact ExportFormat.hasHead_tableRecord entry
  have received (data : Bytes) : Csv.received ⟨data, none⟩ = ⟨data, none⟩ := by
    rw [Csv.received]
    split <;> rfl
  simp only [feed, received, ExportFormat.content_table, Csv.records_written heads,
    Bool.false_eq_true, if_false, List.drop_zero, Option.map_none, items_recordsFrom,
    Feed.ofItems_ok]

/-- An exported table is read back as the entries that were exported, each with the number of its
line as a further field in front, and each placed behind the lines written before it.  A file that
the table is saved in holds just that. -/
theorem readAll_exported (settings : Settings) (entries : List Entry) :
    let table := ExportFormat.table.content entries
    { settings with layout := .table false }.readAll ⟨table, none⟩ =
        .ok (entries.mapIdx fun index entry =>
          ⟨1 + (ExportFormat.table.content (entries.take index)).count Byte.lineFeed,
            toString entry.line :: entry.fields⟩) ∧
      ∀ (tree saved : FileTree) (path : String), tree.save path table = .ok saved →
        saved.openInput path = .ok ⟨table, none⟩ := by
  intro table
  constructor
  · have loaded := congrArg Feed.load (Table.feed_content entries)
    rw [rereadFrom_eq_mapIdx] at loaded
    exact loaded
  · intro tree saved path done
    exact FileTree.openInput_of_save done

/-- A record that goes over two lines, one without fields and one with empty fields. -/
theorem readAll_exported_quoted :
    let entries : List Entry := [⟨7, ["a,b", "\"\r\n"]⟩, ⟨2, []⟩, ⟨1, ["", ""]⟩]
    let table := ExportFormat.table.content entries
    let saved : FileTree := ⟨["home"], [(["home", "out"], table)]⟩
    FileTree.save ⟨["home"], []⟩ "out" table = .ok saved ∧
      saved.openInput "out" = .ok ⟨table, none⟩ ∧
      Settings.readAll { layout := .table false } ⟨table, none⟩ =
        .ok [⟨1, ["7", "a,b", "\"\r\n"]⟩, ⟨3, ["2"]⟩, ⟨4, ["1", "", ""]⟩] := by
  intro entries table saved
  have done : FileTree.save ⟨["home"], []⟩ "out" table = .ok saved := by rfl
  obtain ⟨reread, found⟩ := readAll_exported {} entries
  refine ⟨done, found _ _ _ done, reread.trans ?_⟩
  rfl

end NameSearch
