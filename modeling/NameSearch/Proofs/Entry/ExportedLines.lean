import Mathlib.Data.List.Basic
import NameSearch.Export
import NameSearch.Proofs.Entry.PlainText
import NameSearch.Proofs.Saving

/-!
# Reading exported lines

Entries of plain text are exported as one line each.  Showing a field leaves its line ends and its
white space where they are, so a line that was read is neither cut nor blank when it is read again:
it differs by its separators, and by the carriage return that then stands in front of a line feed.
-/

namespace NameSearch

namespace Text

/-! ## Shown texts -/

@[simp]
theorem toList_shown (text : String) : (shown text).toList = text.toList.flatMap shownAs :=
  String.toList_ofList

@[simp]
theorem shown_append (front back : String) : shown (front ++ back) = shown front ++ shown back := by
  rw [shown, String.toList_append, List.flatMap_append, String.ofList_append]
  rfl

theorem lineFeed_mem_shownAs_iff {character : Char} :
    '\n' ∈ shownAs character ↔ '\n' = character := by
  rw [shownAs]
  split
  · next separator =>
      rw [separator]
      decide
  · exact List.mem_singleton

theorem lineFeed_mem_shown_iff {text : String} :
    '\n' ∈ (shown text).toList ↔ '\n' ∈ text.toList := by
  rw [toList_shown, List.mem_flatMap]
  simp only [lineFeed_mem_shownAs_iff, exists_eq_right']

theorem all_isSpace_shownAs (character : Char) :
    (shownAs character).all isSpace = isSpace character := by
  rw [shownAs]
  split
  · next separator =>
      rw [separator]
      decide
  · exact Bool.and_true _

@[simp]
theorem isBlank_shown (text : String) : isBlank (shown text) = isBlank text := by
  rw [isBlank, toList_shown, List.all_flatMap, isBlank]
  simp only [all_isSpace_shownAs]

theorem getLast?_shown {text : String} (returned : (shown text).toList.getLast? = some '\r') :
    text.toList.getLast? = some '\r' := by
  rw [toList_shown] at returned
  rcases List.eq_nil_or_concat' text.toList with nothing | ⟨front, last, whole⟩
  · rw [nothing] at returned
    cases returned
  · rw [whole, List.flatMap_append, List.flatMap_singleton] at returned
    rw [whole, List.getLast?_concat]
    rw [shownAs] at returned
    split at returned
    · have other : [' ', '|', ' '].getLast? ≠ some '\r' := by decide
      rw [List.getLast?_append_of_ne_nil _ (List.cons_ne_nil _ _)] at returned
      exact absurd returned other
    · rwa [List.getLast?_concat] at returned

theorem dropReturn_shown (text : String) : dropReturn (shown text) = shown (dropReturn text) := by
  by_cases returned : text.toList.getLast? = some '\r'
  · obtain ⟨front, rfl⟩ := exists_append_return returned
    have kept : shown "\r" = "\r" := rfl
    rw [shown_append, kept, dropReturn_append, dropReturn_append]
  · rw [dropReturn_eq_self returned, dropReturn_eq_self (mt getLast?_shown returned)]

/-- The carriage return at the end of a text is white space, so dropping it leaves no text blank
that was not. -/
theorem isBlank_dropReturn (text : String) : isBlank (dropReturn text) = isBlank text := by
  by_cases returned : text.toList.getLast? = some '\r'
  · obtain ⟨front, rfl⟩ := exists_append_return returned
    have space : "\r".toList.all isSpace = true := rfl
    rw [dropReturn_append, isBlank, isBlank, String.toList_append, List.all_append, space,
      Bool.and_true]
  · rw [dropReturn_eq_self returned]

end Text

namespace PlainText

/-! ## Entries of plain text -/

/-- An entry with one field, which is a line that is not blank. -/
def IsFilledLine (entry : Entry) : Prop :=
  ∃ text, entry.fields = [text] ∧ '\n' ∉ text.toList ∧ Text.isBlank text = false

theorem IsFilledLine.unbroken_of_mem {entry : Entry} (line : IsFilledLine entry) {field : String}
    (member : field ∈ entry.fields) : '\n' ∉ field.toList := by
  obtain ⟨text, fields, unbroken, -⟩ := line
  rw [fields, List.mem_singleton] at member
  rwa [member]

theorem isFilledLine_of_entry {number : Nat} {line : Bytes} {given : Entry}
    (unbroken : Byte.lineFeed ∉ line) (read : entry number line = .ok (some given)) :
    IsFilledLine given := by
  rw [entry] at read
  cases encoded : line.text? with
  | none => simp [encoded] at read
  | some text =>
      obtain rfl := Bytes.text?_eq_some_iff.mp encoded
      cases blank : Text.isBlank text with
      | true => simp [encoded, blank] at read
      | false =>
          simp only [encoded, blank, Bool.false_eq_true, if_false, Except.ok.injEq,
            Option.some.injEq] at read
          subst read
          exact ⟨text, rfl, mt Bytes.lineFeed_mem_ofString_iff.mpr unbroken, blank⟩

theorem isFilledLine_of_mem_feed {input : Input} {given : Entry}
    (member : given ∈ (feed input).entries) : IsFilledLine given := by
  rw [feed_eq] at member
  obtain ⟨⟨line, number⟩, inside, read⟩ :=
    List.mem_map.mp (Feed.mem_of_mem_entries member)
  exact isFilledLine_of_entry (unbroken_of_mem_lines (List.fst_mem_of_mem_zipIdx inside)) read

/-- Lines made of the fields of entries, one line of each entry, are read as just as many entries
when none of them is blank. -/
theorem entriesFrom_fields (number : Nat) {entries : List Entry} {line : String → String}
    (filled : ∀ entry ∈ entries, ∃ text, entry.fields = [text] ∧ Text.isBlank (line text) = false) :
    entriesFrom number ((entries.flatMap Entry.fields).map line) =
      entries.mapIdx fun index entry => ⟨index + number, entry.fields.map line⟩ := by
  induction entries generalizing number with
  | nil => rfl
  | cons entry later induction =>
      obtain ⟨⟨text, fields, here⟩, behind⟩ := List.forall_mem_cons.mp filled
      rw [List.flatMap_cons, fields, List.singleton_append, List.map_cons, entriesFrom_cons, here,
        induction (number + 1) behind, List.mapIdx_cons, fields]
      simp [Nat.add_assoc, Nat.add_comm 1 number]

end PlainText

theorem ExportFormat.content_plain {entries : List Entry}
    (single : ∀ entry ∈ entries, ∃ text, entry.fields = [text]) :
    plain.content entries =
      (entries.flatMap Entry.fields).flatMap fun field =>
        Bytes.ofString (Text.shown field ++ "\n") := by
  rw [content, List.flatMap_assoc]
  apply List.flatMap_congr
  intro entry member
  obtain ⟨text, fields⟩ := single entry member
  rw [written, plainLine, fields, List.flatMap_singleton]
  rfl

theorem PlainText.feed_exported {entries : List Entry}
    (lines : ∀ entry ∈ entries, IsFilledLine entry) :
    feed ⟨ExportFormat.plain.content entries, none⟩ =
      ⟨entries.mapIdx fun index entry =>
        ⟨index + 1, entry.fields.map fun field => Text.shown (Text.dropReturn field)⟩, none⟩ := by
  have single : ∀ entry ∈ entries, ∃ text, entry.fields = [text] := fun entry member =>
    (lines entry member).imp fun _ line => line.1
  have unbroken : ∀ shown ∈ (entries.flatMap Entry.fields).map Text.shown,
      '\n' ∉ shown.toList := by
    intro shown member
    obtain ⟨field, inside, rfl⟩ := List.mem_map.mp member
    obtain ⟨entry, exported, ofEntry⟩ := List.mem_flatMap.mp inside
    exact mt Text.lineFeed_mem_shown_iff.mp ((lines entry exported).unbroken_of_mem ofEntry)
  have filled : ∀ entry ∈ entries, ∃ text, entry.fields = [text] ∧
      Text.isBlank (Text.shown (Text.dropReturn text)) = false := by
    intro entry member
    obtain ⟨text, fields, -, filled⟩ := lines entry member
    exact ⟨text, fields, by rw [Text.isBlank_shown, Text.isBlank_dropReturn, filled]⟩
  have texts : ((entries.flatMap Entry.fields).map Text.shown).map Text.dropReturn =
      (entries.flatMap Entry.fields).map fun field => Text.shown (Text.dropReturn field) := by
    simp only [List.map_map, Function.comp_def, Text.dropReturn_shown]
  have nothing : Bytes.ofString "" = [] := rfl
  have read := feed_written unbroken (show '\n' ∉ "".toList from List.not_mem_nil)
  rw [List.flatMap_map, ← ExportFormat.content_plain single, texts, nothing, List.append_nil,
    if_pos rfl, List.append_nil, entriesFrom_fields 1 filled] at read
  exact read

/-- Entries that were read from plain text have one field each, and what they are exported to is
read back as just as many entries on successive lines.  The field of each of them is the one that
was exported as it is shown, less one carriage return at its end.  A file that the lines are saved
in holds just that. -/
theorem readAll_exported_lines (settings : Settings) {input : Input} {entries : List Entry}
    (loaded : { settings with layout := .lines }.readAll input = .ok entries) :
    let exported := ExportFormat.plain.content entries
    (∀ entry ∈ entries, entry.fields.length = 1) ∧
      { settings with layout := .lines }.readAll ⟨exported, none⟩ =
        .ok (entries.mapIdx fun index entry =>
          ⟨index + 1, entry.fields.map fun field => Text.shown (Text.dropReturn field)⟩) ∧
      ∀ (tree saved : FileTree) (path : String), tree.save path exported = .ok saved →
        saved.openInput path = .ok ⟨exported, none⟩ := by
  intro exported
  have lines : ∀ entry ∈ entries, PlainText.IsFilledLine entry := by
    intro entry member
    obtain rfl := Feed.entries_of_load loaded
    exact PlainText.isFilledLine_of_mem_feed member
  refine ⟨fun entry member => ?_, ?_, fun tree saved path done => ?_⟩
  · obtain ⟨text, fields, -⟩ := lines entry member
    rw [fields, List.length_singleton]
  · exact congrArg Feed.load (PlainText.feed_exported lines)
  · exact FileTree.openInput_of_save done

/-- A separator, a line that two carriage returns stand behind, a blank line, and a last line that
ends in a carriage return and in no line feed. -/
theorem readAll_exported_lines_returned :
    let input : Input := ⟨Bytes.ofString "a\x01b\nc\r\r\r\n \r\nd\r", none⟩
    let entries : List Entry := [⟨1, ["a\x01b"]⟩, ⟨2, ["c\r\r"]⟩, ⟨4, ["d\r"]⟩]
    let exported := ExportFormat.plain.content entries
    let saved : FileTree := ⟨["home"], [(["home", "out"], exported)]⟩
    Settings.readAll {} input = .ok entries ∧
      FileTree.save ⟨["home"], []⟩ "out" exported = .ok saved ∧
      saved.openInput "out" = .ok ⟨exported, none⟩ ∧
      Settings.readAll {} ⟨exported, none⟩ =
        .ok [⟨1, ["a | b"]⟩, ⟨2, ["c\r"]⟩, ⟨3, ["d"]⟩] := by
  intro input entries exported saved
  have loaded : Settings.readAll {} input = .ok entries := by rfl
  have done : FileTree.save ⟨["home"], []⟩ "out" exported = .ok saved := by rfl
  obtain ⟨-, reread, found⟩ := readAll_exported_lines {} loaded
  refine ⟨loaded, done, found _ _ _ done, reread.trans ?_⟩
  rfl

end NameSearch
