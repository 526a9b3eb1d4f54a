import NameSearch.Proofs.Bytes.Lines
import NameSearch.Proofs.Entry.Scanning

/-!
# Reading plain text

A plain text is read line by line, whichever way its lines end: the lines that are not blank are
delivered, each with its place among all lines.  Reading stops at the first line that is no text,
and otherwise where the input cannot be read on.
-/

namespace NameSearch
namespace PlainText

/-! ## The lines of an input -/

/-- The lines of an input as they stand in it, with the carriage returns at their ends.  Bytes
behind the last line feed are a line if the input ends there and there are any. -/
def rows (input : Input) : List Bytes :=
  let pieces := input.data.splitOn Byte.lineFeed
  if input.failure = none ∧ pieces.getLast? ≠ some [] then pieces else pieces.dropLast

theorem lines_of_cut {input : Input} {ended : List Bytes} {rest : Bytes}
    (cut : Bytes.lines input.data = (ended, rest)) :
    lines input =
      ended.map Bytes.dropReturn ++
        if input.failure.isSome || rest.isEmpty then [] else [rest] := by
  rw [lines, cut]

/-- The lines that are read are the rows without the carriage returns that are dropped, which leave
text what is text. -/
theorem map_isText_lines (input : Input) :
    (lines input).map Bytes.IsText = (rows input).map Bytes.IsText := by
  have same (ended : List Bytes) :
      (ended.map Bytes.dropReturn).map Bytes.IsText = ended.map Bytes.IsText := by
    rw [List.map_map]
    exact List.map_congr_left fun line _ => propext Bytes.isText_dropReturn
  rw [lines, rows, Bytes.splitOn_eq_lines, List.getLast?_concat, List.dropLast_concat]
  generalize Bytes.lines input.data = split
  obtain ⟨ended, rest⟩ := split
  cases input.failure <;> cases rest <;> simp [same]

theorem length_lines_of_failure {input : Input} {reason : String}
    (unreadable : input.failure = some reason) :
    (lines input).length = input.data.count Byte.lineFeed := by
  simp [lines, unreadable, Bytes.length_lines]

theorem unbroken_of_mem_lines {input : Input} {line : Bytes} (member : line ∈ lines input) :
    Byte.lineFeed ∉ line := by
  have unbroken (line : Bytes) :
      line ∈ (Bytes.lines input.data).1 ++ [(Bytes.lines input.data).2] → Byte.lineFeed ∉ line :=
    Bytes.unbroken_of_mem_lines
  obtain ⟨inEnded, inRest⟩ := List.forall_mem_append.mp unbroken
  rw [lines, List.mem_append, List.mem_map] at member
  rcases member with ⟨row, inside, rfl⟩ | last
  · exact Bytes.unbroken_dropReturn (inEnded row inside)
  · split at last
    · cases last
    · exact inRest line last

/-! ## What lines give -/

theorem entry_of_isText (number : Nat) {line : Bytes} (text : line.IsText) :
    ∃ given, entry number line = .ok given := by
  obtain ⟨text, rfl⟩ := text
  exact ⟨_, by rw [entry, Bytes.text?_ofString]⟩

theorem entry_of_not_isText (number : Nat) {line : Bytes} (noText : ¬line.IsText) :
    entry number line = .error (.line number .notText) := by
  rw [entry, Bytes.text?_eq_none_iff.mpr noText]

/-- What some lines give, the first of which has the given number. -/
def items (number : Nat) (lines : List Bytes) : List (Except ReadFailure (Option Entry)) :=
  (lines.zipIdx number).map fun (line, number) => entry number line

@[simp]
theorem items_cons (number : Nat) (line : Bytes) (later : List Bytes) :
    items number (line :: later) = entry number line :: items (number + 1) later := rfl

theorem items_append (number : Nat) (front back : List Bytes) :
    items number (front ++ back) = items number front ++ items (number + front.length) back := by
  rw [items, List.zipIdx_append, List.map_append]
  rfl

theorem faultless_items (number : Nat) {lines : List Bytes} (texts : ∀ line ∈ lines, line.IsText) :
    ∀ item ∈ items number lines, ∃ given, item = .ok given := by
  intro item member
  obtain ⟨⟨line, place⟩, inside, rfl⟩ := List.mem_map.mp member
  exact entry_of_isText place (texts line (List.fst_mem_of_mem_zipIdx inside))

theorem feed_eq (input : Input) :
    feed input =
      Feed.ofItems (items 1 (lines input))
        (input.failure.map fun reason => .line ((lines input).length + 1) (.unreadable reason)) :=
  rfl

/-- The entries of some lines, the first of which has the given number: those that are not blank. -/
def entriesFrom (number : Nat) (lines : List String) : List Entry :=
  (lines.zipIdx number).filterMap fun (line, number) =>
    if Text.isBlank line then none else some ⟨number, [line]⟩

theorem entriesFrom_cons (number : Nat) (line : String) (later : List String) :
    entriesFrom number (line :: later) =
      if Text.isBlank line then entriesFrom (number + 1) later
      else ⟨number, [line]⟩ :: entriesFrom (number + 1) later := by
  cases blank : Text.isBlank line <;> simp [entriesFrom, blank]

theorem ofItems_items (number : Nat) (lines : List String) (failure : Option ReadFailure) :
    Feed.ofItems (items number (lines.map Bytes.ofString)) failure =
      ⟨entriesFrom number lines, failure⟩ := by
  induction lines generalizing number with
  | nil => rfl
  | cons line later induction =>
      have here : entry number (Bytes.ofString line) =
          .ok (if Text.isBlank line then none else some ⟨number, [line]⟩) := by
        simp [entry]
      rw [List.map_cons, items_cons, Feed.ofItems_cons, induction, here, entriesFrom_cons]
      cases Text.isBlank line <;> rfl

/-! ## Texts that are written line by line -/

/-- Lines that are written with a line feed behind each, and a rest behind them, are read without
one carriage return at their ends. -/
theorem lines_written {written : List String} {last : String}
    (unbroken : ∀ line ∈ written, '\n' ∉ line.toList) (unbrokenLast : '\n' ∉ last.toList) :
    lines ⟨(written.flatMap fun line => Bytes.ofString (line ++ "\n")) ++ Bytes.ofString last,
        none⟩ =
      (written.map Text.dropReturn ++ if last = "" then [] else [last]).map Bytes.ofString := by
  have data : (written.flatMap fun line => Bytes.ofString (line ++ "\n")) =
      (written.map Bytes.ofString).flatMap (· ++ [Byte.lineFeed]) := by
    rw [List.flatMap_map]
    simp only [Bytes.ofString_append]
    rfl
  have apart : ∀ line ∈ written.map Bytes.ofString, Byte.lineFeed ∉ line := by
    intro line member
    obtain ⟨text, inside, rfl⟩ := List.mem_map.mp member
    exact mt Bytes.lineFeed_mem_ofString_iff.mp (unbroken text inside)
  have apartLast := mt Bytes.lineFeed_mem_ofString_iff.mp unbrokenLast
  rw [data, lines_of_cut (Bytes.lines_joined apart apartLast), List.map_append, List.map_map,
    List.map_map]
  congr 1
  · exact List.map_congr_left fun line _ => Bytes.dropReturn_ofString line
  · by_cases nothing : last = ""
    · rw [nothing]
      rfl
    · simp [nothing, Bytes.ofString_eq_nil_iff]

theorem feed_written {written : List String} {last : String}
    (unbroken : ∀ line ∈ written, '\n' ∉ line.toList) (unbrokenLast : '\n' ∉ last.toList) :
    feed ⟨(written.flatMap fun line => Bytes.ofString (line ++ "\n")) ++ Bytes.ofString last,
        none⟩ =
      ⟨entriesFrom 1 (written.map Text.dropReturn ++ if last = "" then [] else [last]), none⟩ := by
  rw [feed_eq, lines_written unbroken unbrokenLast]
  exact ofItems_items 1 _ none

/-- A line without the line feed that ends it, and without a carriage return in front of that. -/
structure IsLine (text : String) : Prop where
  unbroken : '\n' ∉ text.toList
  unreturned : text.toList.getLast? ≠ some '\r'

instance (text : String) : Decidable (IsLine text) :=
  decidable_of_iff ('\n' ∉ text.toList ∧ text.toList.getLast? ≠ some '\r')
    ⟨fun parts => ⟨parts.1, parts.2⟩, fun isLine => ⟨isLine.unbroken, isLine.unreturned⟩⟩

/-- A line and what ends it. -/
structure Row where
  /-- The text of the line. -/
  text : String
  /-- Whether a carriage return stands in front of the line feed. -/
  returned : Bool

/-- A line up to its line feed. -/
def Row.written (row : Row) : String := if row.returned then row.text ++ "\r" else row.text

theorem Row.dropReturn_written {row : Row} (isLine : IsLine row.text) :
    Text.dropReturn row.written = row.text := by
  rw [written]
  split
  · exact Text.dropReturn_append row.text
  · exact Text.dropReturn_eq_self isLine.unreturned

theorem Row.unbroken_written {row : Row} (isLine : IsLine row.text) :
    '\n' ∉ row.written.toList := by
  rw [written]
  split
  · rw [String.toList_append, List.mem_append]
    rintro (inside | last)
    · exact isLine.unbroken inside
    · revert last
      decide
  · exact isLine.unbroken

/-- Some lines, each with what ends it, and a last line that nothing ends. -/
def content (rows : List Row) (last : String) : Bytes :=
  (rows.flatMap fun row => Bytes.ofString (row.written ++ "\n")) ++ Bytes.ofString last

theorem feed_content {rows : List Row} {last : String} (areLines : ∀ row ∈ rows, IsLine row.text)
    (isLine : IsLine last) :
    feed ⟨content rows last, none⟩ =
      ⟨entriesFrom 1 (rows.map Row.text ++ if last = "" then [] else [last]), none⟩ := by
  have unbroken : ∀ line ∈ rows.map Row.written, '\n' ∉ line.toList := by
    intro line member
    obtain ⟨row, inside, rfl⟩ := List.mem_map.mp member
    exact row.unbroken_written (areLines row inside)
  have texts : (rows.map Row.written).map Text.dropReturn = rows.map Row.text := by
    rw [List.map_map]
    exact List.map_congr_left fun row member => row.dropReturn_written (areLines row member)
  have read := feed_written unbroken isLine.unbroken
  rw [texts, List.flatMap_map] at read
  exact read

/-! ## Faults -/

theorem areText_of_map_eq {list others : List Bytes}
    (same : list.map Bytes.IsText = others.map Bytes.IsText)
    (texts : ∀ other ∈ others, other.IsText) : ∀ line ∈ list, line.IsText := by
  intro line member
  have inside : line.IsText ∈ others.map Bytes.IsText := same ▸ List.mem_map_of_mem member
  obtain ⟨other, there, alike⟩ := List.mem_map.mp inside
  exact alike ▸ texts other there

theorem failure_feed_of_row {input : Input} {front later : List Bytes} {row : Bytes}
    (cut : rows input = front ++ row :: later) (texts : ∀ earlier ∈ front, earlier.IsText)
    (noText : ¬row.IsText) :
    (feed input).failure = some (.line (front.length + 1) .notText) := by
  have same := map_isText_lines input
  rw [cut, List.map_append, List.map_cons] at same
  obtain ⟨read, _, whole, readTexts, behind⟩ := List.map_eq_append_iff.mp same
  obtain ⟨line, _, rfl, alike, -⟩ := List.map_eq_cons_iff.mp behind
  have faultless := faultless_items 1 (areText_of_map_eq readTexts texts)
  have length : read.length = front.length := by
    simpa using congrArg List.length readTexts
  have fault := entry_of_not_isText (1 + front.length) (alike ▸ noText)
  rw [feed_eq, whole, items_append, Feed.failure_ofItems_append faultless, items_cons,
    Feed.ofItems_cons, length, fault, Nat.add_comm]
  rfl

theorem failure_feed_of_unreadable {input : Input} {reason : String}
    (texts : ∀ row ∈ rows input, row.IsText) (unreadable : input.failure = some reason) :
    (feed input).failure =
      some (.line (1 + input.data.count Byte.lineFeed) (.unreadable reason)) := by
  have faultless := faultless_items 1 (areText_of_map_eq (map_isText_lines input) texts)
  rw [feed_eq, ← List.append_nil (items 1 (lines input)), Feed.failure_ofItems_append faultless,
    length_lines_of_failure unreadable, unreadable, Nat.add_comm]
  rfl

end PlainText

/-- Reading plain text does not see how its lines end.  It gives the lines that are not blank, each
with its place among all lines.  The first line that is no text stops it, and where there is none,
what stops the input stops it behind all its line feeds. -/
theorem readAll_lines (settings : Settings) :
    let readAll := { settings with layout := .lines }.readAll
    (∀ (rows : List PlainText.Row) (last : String), (∀ row ∈ rows, PlainText.IsLine row.text) →
      PlainText.IsLine last →
      readAll ⟨PlainText.content rows last, none⟩ =
        .ok (PlainText.entriesFrom 1
          (rows.map PlainText.Row.text ++ if last = "" then [] else [last]))) ∧
    ∀ input : Input,
      (∀ front row later, PlainText.rows input = front ++ row :: later →
        (∀ earlier ∈ front, earlier.IsText) → ¬row.IsText →
        readAll input = .error (.line (front.length + 1) .notText)) ∧
      ∀ reason, (∀ row ∈ PlainText.rows input, row.IsText) → input.failure = some reason →
        readAll input =
          .error (.line (1 + input.data.count Byte.lineFeed) (.unreadable reason)) := by
  refine ⟨fun rows last areLines isLine => ?_, fun input => ⟨?_, ?_⟩⟩
  · exact congrArg Feed.load (PlainText.feed_content areLines isLine)
  · intro front row later cut texts noText
    exact Feed.load_of_failure (PlainText.failure_feed_of_row cut texts noText)
  · intro reason texts unreadable
    exact Feed.load_of_failure (PlainText.failure_feed_of_unreadable texts unreadable)

/-- Lines that end in two ways with a blank one among them and a last one that nothing ends; a line
that is no text, in front of one that would be lost; and an input that breaks off in its third
line. -/
theorem readAll_lines_mixed :
    let readAll := Settings.readAll {}
    let rows : List PlainText.Row := [⟨"a", false⟩, ⟨" \t", true⟩, ⟨"é", true⟩]
    let garbled : Input := ⟨[97, 10, 255, 13, 10, 98], some "gone"⟩
    let broken : Input := ⟨Bytes.ofString "a\r\n\nb", some "gone"⟩
    ((∀ row ∈ rows, PlainText.IsLine row.text) ∧ PlainText.IsLine "b" ∧
      readAll ⟨PlainText.content rows "b", none⟩ =
        .ok [⟨1, ["a"]⟩, ⟨3, ["é"]⟩, ⟨4, ["b"]⟩]) ∧
    (PlainText.rows garbled = [[97], [255, 13]] ∧ ¬Bytes.IsText [255, 13] ∧
      readAll garbled = .error (.line 2 .notText)) ∧
    (∀ row ∈ PlainText.rows broken, row.IsText) ∧
      readAll broken = .error (.line 3 (.unreadable "gone")) := by
  intro readAll rows garbled broken
  obtain ⟨ofRows, faults⟩ := readAll_lines {}
  have areLines : ∀ row ∈ rows, PlainText.IsLine row.text := by decide
  have isLine : PlainText.IsLine "b" := by decide
  have cut : PlainText.rows garbled = [[97]] ++ [255, 13] :: [] := by decide
  have front : ∀ row ∈ [[97]], Bytes.IsText row := by decide
  have noText : ¬Bytes.IsText [255, 13] := by decide
  have texts : ∀ row ∈ PlainText.rows broken, row.IsText := by decide
  refine ⟨⟨areLines, isLine, ofRows rows "b" areLines isLine⟩, ⟨cut, noText, ?_⟩, texts, ?_⟩
  · exact (faults garbled).1 _ _ _ cut front noText
  · exact (faults broken).2 "gone" texts rfl

end NameSearch
