import NameSearch.Csv.Record
import NameSearch.Csv.Written

/-!
# Reading back what was written

A scanner that goes over a written field comes to hold that field, whatever bytes stand in it, and
is left where a comma or a line feed ends it.  So it comes from one record to the next with the
fields that were written, and places each record behind all that was written before it.
-/

namespace NameSearch

/-- The place of the next record when some bytes have been written at a place. -/
def Place.behind (place : Place) (written : Bytes) : Place :=
  ⟨place.record + 1, place.line + written.count Byte.lineFeed, place.byte + written.length⟩

namespace Csv

theorem writtenRecord_singleton (field : Bytes) :
    writtenRecord [field] = writtenField field ++ [Byte.lineFeed] := by
  simp [writtenRecord]

theorem writtenRecord_cons_cons (first next : Bytes) (later : List Bytes) :
    writtenRecord (first :: next :: later) =
      writtenField first ++ Byte.comma :: writtenRecord (next :: later) := by
  simp [writtenRecord, List.intercalate_cons_cons]

namespace Scanner

/-- The scanner when some more bytes have been counted. -/
def passed (scanner : Scanner) (bytes : Bytes) : Scanner :=
  { scanner with
    line := scanner.line + bytes.count Byte.lineFeed
    byte := scanner.byte + bytes.length }

theorem count_eq_passed (scanner : Scanner) (byte : UInt8) :
    scanner.count byte = scanner.passed [byte] := by
  by_cases ended : byte = Byte.lineFeed
  · simp [count, passed, ended]
  · simp [count, passed, ended]

/-- The scanner when it has passed some bytes that stand for `text` in the current field. -/
def reading (scanner : Scanner) (bytes text : Bytes) (stage : Stage) : Scanner :=
  { scanner.passed bytes with stage, field := text.reverse ++ scanner.field }

theorem reading_reading (scanner : Scanner) (bytes text bytes' text' : Bytes)
    (stage stage' : Stage) :
    (scanner.reading bytes text stage).reading bytes' text' stage' =
      scanner.reading (bytes ++ bytes') (text ++ text') stage' := by
  simp [reading, passed, Nat.add_assoc]

/-! ## Fields -/

section Field

variable {scanner : Scanner} {byte : UInt8} {text : Bytes}

/-- The scanner is in a field that a comma or a line end ends. -/
def IsEndable (scanner : Scanner) : Prop :=
  scanner.stage = .fieldStart ∨ scanner.stage = .plain ∨ scanner.stage = .afterQuote

theorem step_readPlain (endable : scanner.IsEndable) (noQuote : byte ≠ Byte.doubleQuote) :
    scanner.step byte = (scanner.passed [byte]).readPlain byte := by
  rw [step, count_eq_passed]
  rcases endable with stage | stage | stage <;> simp [passed, stage, readFirst, noQuote]

theorem step_comma (endable : scanner.IsEndable) :
    scanner.step Byte.comma = (scanner.passed [Byte.comma]).endField :=
  step_readPlain endable (by decide)

theorem step_lineFeed (endable : scanner.IsEndable) :
    scanner.step Byte.lineFeed = (scanner.passed [Byte.lineFeed]).endRecord :=
  step_readPlain endable (by decide)

theorem step_plain (stage : scanner.stage = .fieldStart ∨ scanner.stage = .plain)
    (plain : needsQuotes byte = false) :
    scanner.step byte = scanner.reading [byte] [byte] .plain := by
  simp only [needsQuotes, Bool.or_eq_false_iff, beq_eq_false_iff_ne] at plain
  obtain ⟨⟨noComma, noQuote⟩, noEnd⟩ := plain
  have endable : scanner.IsEndable := stage.imp_right .inl
  rw [step_readPlain endable noQuote, readPlain, if_neg noComma, noEnd]
  rfl

theorem foldl_step_plain (stage : scanner.stage = .plain)
    (plain : ∀ byte ∈ text, needsQuotes byte = false) :
    text.foldl step scanner = scanner.reading text text .plain := by
  induction text generalizing scanner with
  | nil => simp [reading, passed, ← stage]
  | cons byte text induction =>
      obtain ⟨here, later⟩ := List.forall_mem_cons.mp plain
      rw [List.foldl_cons, step_plain (.inr stage) here, induction rfl later, reading_reading]
      rfl

theorem step_openingQuote (stage : scanner.stage = .fieldStart) :
    scanner.step Byte.doubleQuote = scanner.reading [Byte.doubleQuote] [] .quoted := by
  rw [step, count_eq_passed]
  simp [passed, stage, readFirst, reading]

theorem step_closingQuote (stage : scanner.stage = .quoted) :
    scanner.step Byte.doubleQuote = scanner.reading [Byte.doubleQuote] [] .afterQuote := by
  rw [step, count_eq_passed]
  simp [passed, stage, reading]

/-- Inside quotation marks a byte is read as it is written, which is twice for the mark itself. -/
theorem foldl_step_doubled (stage : scanner.stage = .quoted) (byte : UInt8) :
    (doubled byte).foldl step scanner = scanner.reading (doubled byte) [byte] .quoted := by
  rw [doubled]
  split
  · next quote =>
      have again : (scanner.reading [Byte.doubleQuote] [] .afterQuote).step Byte.doubleQuote =
          (scanner.reading [Byte.doubleQuote] [] .afterQuote).reading [Byte.doubleQuote]
            [Byte.doubleQuote] .quoted := by
        rw [step, count_eq_passed]
        simp [reading, passed, push]
      subst quote
      rw [List.foldl_cons, step_closingQuote stage, List.foldl_cons, again, reading_reading]
      rfl
  · next letter =>
      rw [List.foldl_cons, step, count_eq_passed]
      simp [passed, stage, letter, push, reading]

theorem foldl_step_quoted (stage : scanner.stage = .quoted) (text : Bytes) :
    (text.flatMap doubled).foldl step scanner =
      scanner.reading (text.flatMap doubled) text .quoted := by
  induction text generalizing scanner with
  | nil => simp [reading, passed, ← stage]
  | cons byte text induction =>
      rw [List.flatMap_cons, List.foldl_append, foldl_step_doubled stage, induction rfl,
        reading_reading]
      rfl

/-- Over a written field the scanner comes to hold the field, and can end it. -/
theorem foldl_step_writtenField (stage : scanner.stage = .fieldStart) (text : Bytes) :
    ∃ stage, (scanner.reading (writtenField text) text stage).IsEndable ∧
      (writtenField text).foldl step scanner = scanner.reading (writtenField text) text stage := by
  rw [writtenField]
  split
  · refine ⟨.afterQuote, .inr (.inr rfl), ?_⟩
    rw [List.cons_append, List.foldl_cons, step_openingQuote stage, List.foldl_append,
      foldl_step_quoted rfl, List.foldl_cons, step_closingQuote rfl, reading_reading,
      reading_reading]
    simp
  · next plain =>
      have letters : ∀ byte ∈ text, needsQuotes byte = false := by simpa using plain
      cases text with
      | nil =>
          refine ⟨.fieldStart, .inl rfl, ?_⟩
          simp [reading, passed, ← stage]
      | cons byte text =>
          refine ⟨.plain, .inr (.inl rfl), ?_⟩
          obtain ⟨here, later⟩ := List.forall_mem_cons.mp letters
          rw [List.foldl_cons, step_plain (.inl stage) here, foldl_step_plain rfl later,
            reading_reading]
          rfl

end Field

/-! ## Records -/

/-- The scanner between two records, when it stands at a place and some records have ended. -/
def between (place : Place) (records : List Record) : Scanner :=
  { start := place, line := place.line, byte := place.byte, records }

/-- The scanner at the start of a field, when it has passed some bytes of the record at a place and
some fields of the record have ended. -/
def atField (place : Place) (records : List Record) (bytes : Bytes) (fields : List Bytes) :
    Scanner :=
  { (between place records).passed bytes with stage := .fieldStart, fields := fields.reverse }

theorem endField_atField (place : Place) (records : List Record) (bytes : Bytes)
    (fields : List Bytes) (written text : Bytes) (stage : Stage) :
    (((atField place records bytes fields).reading written text stage).passed
        [Byte.comma]).endField =
      atField place records (bytes ++ written ++ [Byte.comma]) (fields ++ [text]) := by
  simp [atField, reading, endField, between, passed, Nat.add_assoc]

theorem endRecord_atField (place : Place) (records : List Record) (bytes : Bytes)
    (fields : List Bytes) (written text : Bytes) (stage : Stage) :
    (((atField place records bytes fields).reading written text stage).passed
        [Byte.lineFeed]).endRecord =
      between (place.behind (bytes ++ written ++ [Byte.lineFeed]))
        (⟨place, fields ++ [text]⟩ :: records) := by
  simp [atField, reading, endRecord, record, between, passed, Place.behind, Nat.add_assoc]

theorem foldl_step_fields (place : Place) (records : List Record) (bytes : Bytes)
    (fields : List Bytes) (first : Bytes) (later : List Bytes) :
    (writtenRecord (first :: later)).foldl step (atField place records bytes fields) =
      between (place.behind (bytes ++ writtenRecord (first :: later)))
        (⟨place, fields ++ first :: later⟩ :: records) := by
  induction later generalizing bytes fields first with
  | nil =>
      have start : (atField place records bytes fields).stage = .fieldStart := rfl
      obtain ⟨stage, endable, reads⟩ := foldl_step_writtenField start first
      rw [writtenRecord_singleton, List.foldl_append, reads, List.foldl_cons, step_lineFeed endable,
        endRecord_atField, List.append_assoc]
      rfl
  | cons next later induction =>
      have start : (atField place records bytes fields).stage = .fieldStart := rfl
      obtain ⟨stage, endable, reads⟩ := foldl_step_writtenField start first
      rw [writtenRecord_cons_cons, List.foldl_append, reads, List.foldl_cons, step_comma endable,
        endField_atField, induction]
      simp

theorem step_between {place : Place} {records : List Record} {byte : UInt8}
    (text : Byte.isLineEnd byte = false) :
    (between place records).step byte = (atField place records [] []).step byte := by
  rw [step, step, count_eq_passed, count_eq_passed]
  simp only [between, atField, passed, readFirst, readPlain, text, Bool.false_eq_true, if_false]
  split
  · rfl
  · split <;> rfl

end Scanner

/-- The first field is not empty and does not start as a byte order mark does. -/
def HasHead (fields : List Bytes) : Prop :=
  ∃ byte text later, fields = (byte :: text) :: later ∧ byte ≠ 0xEF

theorem writtenRecord_eq_cons {fields : List Bytes} (head : HasHead fields) :
    ∃ byte rest, writtenRecord fields = byte :: rest ∧ Byte.isLineEnd byte = false ∧
      byte ≠ 0xEF := by
  obtain ⟨byte, text, later, rfl, unmarked⟩ := head
  have start : ∃ rest, writtenRecord ((byte :: text) :: later) =
      writtenField (byte :: text) ++ rest := by
    cases later with
    | nil => exact ⟨_, writtenRecord_singleton _⟩
    | cons next later => exact ⟨_, writtenRecord_cons_cons _ next later⟩
  obtain ⟨rest, written⟩ := start
  rw [written, writtenField]
  split
  · exact ⟨Byte.doubleQuote, _, rfl, rfl, by decide⟩
  · next plain =>
      refine ⟨byte, text ++ rest, rfl, ?_, unmarked⟩
      have letter : needsQuotes byte = false := by
        simp only [List.any_cons, Bool.or_eq_true, not_or, Bool.not_eq_true] at plain
        exact plain.1
      simp only [needsQuotes, Bool.or_eq_false_iff] at letter
      exact letter.2

/-- Over a written record the scanner comes from the end of one record to the end of the next. -/
theorem foldl_step_writtenRecord (place : Place) (records : List Record) {fields : List Bytes}
    (head : HasHead fields) :
    (writtenRecord fields).foldl Scanner.step (Scanner.between place records) =
      Scanner.between (place.behind (writtenRecord fields)) (⟨place, fields⟩ :: records) := by
  obtain ⟨byte, rest, starts, text, -⟩ := writtenRecord_eq_cons head
  obtain ⟨first, inFirst, later, rfl, -⟩ := head
  have reads := Scanner.foldl_step_fields place records [] [] (first :: inFirst) later
  rw [starts, List.foldl_cons] at reads ⊢
  rw [Scanner.step_between text, reads, List.nil_append, List.nil_append]

/-- The records that are read where some rows have been written one after the other. -/
def recordsFrom (place : Place) : List (List Bytes) → List Record
  | [] => []
  | fields :: later =>
    ⟨place, fields⟩ :: recordsFrom (place.behind (writtenRecord fields)) later

theorem finish_written (place : Place) (records : List Record) {rows : List (List Bytes)}
    (heads : ∀ fields ∈ rows, HasHead fields) :
    ((rows.flatMap writtenRecord).foldl Scanner.step (Scanner.between place records)).finish =
      records.reverse ++ recordsFrom place rows := by
  induction rows generalizing place records with
  | nil => simp [Scanner.finish, Scanner.between, Scanner.ended, recordsFrom]
  | cons fields later induction =>
      obtain ⟨here, behind⟩ := List.forall_mem_cons.mp heads
      rw [List.flatMap_cons, List.foldl_append, foldl_step_writtenRecord place records here,
        induction _ _ behind]
      simp [recordsFrom]

theorem skipMark_written {rows : List (List Bytes)} (heads : ∀ fields ∈ rows, HasHead fields) :
    skipMark (rows.flatMap writtenRecord) = ({}, rows.flatMap writtenRecord) := by
  cases rows with
  | nil => rfl
  | cons fields later =>
      obtain ⟨byte, rest, starts, -, unmarked⟩ :=
        writtenRecord_eq_cons (heads fields List.mem_cons_self)
      rw [List.flatMap_cons, starts, List.cons_append, skipMark]
      have absent (behind : Bytes) : byteOrderMark.isPrefixOf? (byte :: behind) = none :=
        if_neg (by simpa using unmarked.symm)
      rw [absent]

theorem records_written {rows : List (List Bytes)} (heads : ∀ fields ∈ rows, HasHead fields) :
    records ⟨rows.flatMap writtenRecord, none⟩ = recordsFrom {} rows := by
  simp only [records, scan, skipMark_written heads]
  exact finish_written {} [] heads

end Csv
end NameSearch
