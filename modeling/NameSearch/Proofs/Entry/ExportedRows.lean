import NameSearch.Proofs.Entry.ExportedLines

/-!
# Rows of a plain export

A plain export writes one row for each entry.  Line feeds are written as they are, so the rows are
the lines of the file exactly when no field that is exported holds one.  No field of plain text
does; a quoted field of a table may.
-/

namespace NameSearch

/-! ## Entries that are chosen -/

/-- The entries that are chosen from an input for a query, while it is read or once all of it has
been. -/
inductive Settings.Chooses (settings : Settings) (query : Query) (comparison : Option Comparison)
    (input : Input) : List Entry → Prop
  /-- The entries are chosen while the input is read. -/
  | whileReading {selection : Selection}
      (selected : settings.select query comparison input = .ok selection) :
      Chooses settings query comparison input selection.matched
  /-- The entries are chosen from all that have been read. -/
  | fromAll {entries : List Entry} (loaded : settings.readAll input = .ok entries) :
      Chooses settings query comparison input (Entry.choose settings query comparison entries)

theorem Feed.mem_of_mem_matched {isWanted : Entry → Bool} {limit : Nat} {feed : Feed}
    {selection : Selection} (scanned : feed.scan limit isWanted = .ok selection) {entry : Entry}
    (member : entry ∈ selection.matched) : entry ∈ feed.entries := by
  by_cases few : limit = 0 ∨ feed.entries.countP isWanted < limit
  · rw [scan_of_lt isWanted few] at scanned
    cases loaded : feed.load with
    | error failure => simp [loaded, Except.map] at scanned
    | ok entries =>
        simp only [loaded, Except.map, Except.ok.injEq] at scanned
        subst scanned
        rw [entries_of_load loaded]
        exact List.mem_of_mem_filter member
  · rw [not_or, Nat.not_lt] at few
    obtain ⟨position, -, same⟩ := scan_of_le isWanted (Nat.pos_of_ne_zero few.1) few.2
    rw [same, Except.ok.injEq] at scanned
    subst scanned
    exact List.mem_of_mem_filter (List.mem_of_mem_take member)

theorem Entry.mem_of_mem_choose {settings : Settings} {query : Query}
    {comparison : Option Comparison} {entries : List Entry} {entry : Entry}
    (member : entry ∈ choose settings query comparison entries) : entry ∈ entries := by
  rw [choose] at member
  split at member
  · exact List.mem_of_mem_filter member
  · exact List.mem_of_mem_filter (List.mem_of_mem_take member)

theorem Settings.Chooses.mem_feed {settings : Settings} {query : Query}
    {comparison : Option Comparison} {input : Input} {entries : List Entry}
    (chosen : settings.Chooses query comparison input entries) {entry : Entry}
    (member : entry ∈ entries) : entry ∈ (settings.feed input).entries := by
  cases chosen with
  | whileReading selected => exact Feed.mem_of_mem_matched selected member
  | fromAll loaded =>
      rw [Feed.entries_of_load loaded]
      exact Entry.mem_of_mem_choose member

/-! ## Rows -/

namespace Entry

/-- The fields of an entry as they are shown, with tabs between them. -/
def row (entry : Entry) : String := "\t".intercalate (entry.fields.map Text.shown)

/-- No field of an entry holds a line feed. -/
def IsUnbroken (entry : Entry) : Prop := ∀ field ∈ entry.fields, '\n' ∉ field.toList

theorem lineFeed_not_mem_intercalate_iff (texts : List String) :
    '\n' ∉ ("\t".intercalate texts).toList ↔ ∀ text ∈ texts, '\n' ∉ text.toList := by
  induction texts with
  | nil => simp
  | cons first later induction =>
      cases later with
      | nil => simp
      | cons next later =>
          have noTab : '\n' ∉ "\t".toList := by decide
          rw [String.intercalate_cons_cons, String.toList_append, String.toList_append,
            List.mem_append, List.mem_append, not_or, not_or, List.forall_mem_cons, induction]
          simp only [noTab, not_false_eq_true, and_true]

theorem lineFeed_not_mem_row_iff (entry : Entry) :
    Byte.lineFeed ∉ Bytes.ofString entry.row ↔ entry.IsUnbroken := by
  rw [Bytes.lineFeed_mem_ofString_iff, row, lineFeed_not_mem_intercalate_iff, List.forall_mem_map]
  simp only [Text.lineFeed_mem_shown_iff, IsUnbroken]

end Entry

namespace ExportFormat

/-- The rows of some entries as they are exported. -/
def rows (entries : List Entry) : List Bytes :=
  entries.map fun entry => Bytes.ofString entry.row

theorem content_eq_rows (entries : List Entry) :
    plain.content entries = (rows entries).flatMap (· ++ [Byte.lineFeed]) := by
  rw [content, rows, List.flatMap_map]
  apply List.flatMap_congr
  intro entry _
  exact Bytes.ofString_append entry.row "\n"

theorem unbroken_rows_iff {entries : List Entry} :
    (∀ row ∈ rows entries, Byte.lineFeed ∉ row) ↔ ∀ entry ∈ entries, entry.IsUnbroken := by
  simp only [rows, List.forall_mem_map, Entry.lineFeed_not_mem_row_iff]

end ExportFormat

namespace Bytes

theorem count_rows (rows : List Bytes) :
    (rows.flatMap (· ++ [Byte.lineFeed])).count Byte.lineFeed =
      rows.length + rows.flatten.count Byte.lineFeed := by
  induction rows with
  | nil => rfl
  | cons row later induction =>
      rw [List.flatMap_cons, List.count_append, List.count_append, induction,
        List.count_singleton_self, List.length_cons, List.flatten_cons, List.count_append]
      omega

theorem count_rows_iff (rows : List Bytes) :
    (rows.flatMap (· ++ [Byte.lineFeed])).count Byte.lineFeed = rows.length ↔
      ∀ row ∈ rows, Byte.lineFeed ∉ row := by
  rw [count_rows, Nat.add_eq_left, List.count_eq_zero, List.mem_flatten]
  simp only [not_exists, not_and]

/-- Rows are the lines of what is written exactly when no line feed stands inside a row. -/
theorem lines_rows_iff (rows : List Bytes) :
    lines (rows.flatMap (· ++ [Byte.lineFeed])) = (rows, []) ↔
      ∀ row ∈ rows, Byte.lineFeed ∉ row := by
  constructor
  · intro cut row member
    have unbroken (line : Bytes) :
        line ∈ (lines (rows.flatMap (· ++ [Byte.lineFeed]))).1 ++
          [(lines (rows.flatMap (· ++ [Byte.lineFeed]))).2] → Byte.lineFeed ∉ line :=
      unbroken_of_mem_lines
    rw [cut] at unbroken
    exact unbroken row (List.mem_append_left [[]] member)
  · intro unbroken
    have joined := lines_joined unbroken (List.not_mem_nil (a := Byte.lineFeed))
    rwa [List.append_nil] at joined

end Bytes

/-- A plain export writes the rows of the entries that were chosen, with a line feed behind each.
They are the lines of the file, and there are as many line feeds in it as entries, exactly when no
field that is exported holds a line feed.  This is so wherever the entries come from plain text. -/
theorem lines_exported_iff (settings : Settings) (query : Query) (comparison : Option Comparison)
    {input : Input} {entries : List Entry}
    (chosen : settings.Chooses query comparison input entries) :
    let exported := ExportFormat.plain.content entries
    let rows := entries.map fun entry =>
      Bytes.ofString ("\t".intercalate (entry.fields.map Text.shown))
    exported = rows.flatMap (· ++ [Byte.lineFeed]) ∧
      (Bytes.lines exported = (rows, []) ↔ ∀ entry ∈ entries, entry.IsUnbroken) ∧
      (exported.count Byte.lineFeed = entries.length ↔ ∀ entry ∈ entries, entry.IsUnbroken) ∧
      (settings.layout = .lines → ∀ entry ∈ entries, entry.IsUnbroken) := by
  intro exported rows
  have written : exported = rows.flatMap (· ++ [Byte.lineFeed]) :=
    ExportFormat.content_eq_rows entries
  have asMany : rows.length = entries.length := List.length_map _
  refine ⟨written, ?_, ?_, fun inLines entry member => ?_⟩
  · rw [written, Bytes.lines_rows_iff]
    exact ExportFormat.unbroken_rows_iff
  · rw [written, ← asMany, Bytes.count_rows_iff]
    exact ExportFormat.unbroken_rows_iff
  · have read := chosen.mem_feed member
    rw [Settings.feed, inLines] at read
    intro field
    exact (PlainText.isFilledLine_of_mem_feed read).unbroken_of_mem

/-- A line that is chosen from plain text is a line of the export. -/
theorem lines_exported_iff_plain :
    let input : Input := ⟨Bytes.ofString "a\x01b\r\n\nc", none⟩
    let query : Query := ⟨[Token.bare (Bytes.ofString "a")]⟩
    let entries : List Entry := [⟨1, ["a\x01b"]⟩]
    let exported := ExportFormat.plain.content entries
    Settings.Chooses {} query none input entries ∧
      Bytes.lines exported = ([Bytes.ofString "a | b"], []) ∧
      exported.count Byte.lineFeed = entries.length := by
  intro input query entries exported
  have chosen : Settings.Chooses {} query none input entries := by
    have selected : Settings.select {} query none input = .ok ⟨2, entries⟩ := by decide +kernel
    exact .whileReading selected
  obtain ⟨-, cut, counted, unbroken⟩ := lines_exported_iff {} query none chosen
  exact ⟨chosen, cut.mpr (unbroken rfl), counted.mpr (unbroken rfl)⟩

/-- A record with a line feed in a quoted field is exported as two lines. -/
theorem lines_exported_of_quoted :
    let settings : Settings := { layout := .table false }
    let input : Input := ⟨Bytes.ofString "\"a\nb\"\n", none⟩
    let entries : List Entry := [⟨1, ["a\nb"]⟩]
    let exported := ExportFormat.plain.content entries
    settings.select ⟨[]⟩ none input = .ok ⟨1, entries⟩ ∧
      exported = Bytes.ofString "a\nb\n" ∧
      exported.count Byte.lineFeed ≠ entries.length ∧
      Bytes.lines exported = ([Bytes.ofString "a", Bytes.ofString "b"], []) := by
  decide +kernel

end NameSearch
