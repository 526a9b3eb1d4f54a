import NameSearch.Entry.Streaming
import NameSearch.Proofs.Entry.PlainText
import NameSearch.Proofs.Entry.TableLines

/-!
# Reading entries while bytes come in

Choosing entries while the bytes of an input come in is choosing them from what the whole input
delivers, however the bytes are divided into pieces.  A choice that ends with some piece is the
same whatever comes behind it.
-/

namespace NameSearch

/-! ## Choosing among items -/

namespace Choice

variable (isWanted : Entry → Bool) (limit scanned : Nat) (chosen : List Entry)

/-- Items are taken one by one as a scan takes the feed of them. -/
theorem conclude_foldlM_take (items : List Delivery) :
    conclude (items.foldlM take ⟨isWanted, limit, scanned, chosen⟩) =
      Feed.scanFrom isWanted (Feed.ofItems items none).failure limit scanned chosen
        (Feed.ofItems items none).entries := by
  induction items generalizing limit scanned chosen with
  | nil => rfl
  | cons item later induction =>
      rw [List.foldlM_cons, Feed.ofItems_cons]
      match item with
      | .error failure => rfl
      | .ok none => exact induction limit scanned chosen
      | .ok (some entry) =>
          simp only [take, Feed.deliver, Feed.scanFrom]
          cases isWanted entry with
          | false => exact induction limit (scanned + 1) chosen
          | true =>
              by_cases last : limit = 1
              · rw [if_pos rfl, if_pos rfl, if_pos last, if_pos last]
                rfl
              · rw [if_pos rfl, if_pos rfl, if_neg last, if_neg last]
                exact induction (limit - 1) (scanned + 1) (entry :: chosen)

end Choice

/-! ## What a reader gives -/

namespace Reader

/-- The reader behind some bytes, and what it gives on the way. -/
def reads : Reader → Bytes → Reader × List Delivery
  | reader, [] => (reader, [])
  | reader, byte :: later =>
    let rest := (reader.step byte).1.reads later
    (rest.1, (reader.step byte).2.toList ++ rest.2)

/-- All that a reader gives of an input. -/
def items (reader : Reader) (input : Input) : List Delivery :=
  (reader.reads input.data).2 ++ ((reader.reads input.data).1.last? input.failure).toList

end Reader

theorem Reading.through_eq (reading : Reading) (input : Input) :
    reading.through input =
      Choice.conclude ((reading.reader.items input).foldlM Choice.take reading.choice) := by
  obtain ⟨reader, choice⟩ := reading
  obtain ⟨data, reason⟩ := input
  simp only [through, feed, Reader.items]
  induction data generalizing reader choice with
  | nil => rfl
  | cons byte later induction =>
      rw [List.foldlM_cons, step, Reader.reads]
      rcases reader.step byte with ⟨next, _ | item⟩
      · exact induction next choice
      · simp only [Option.toList_some, List.cons_append, List.foldlM_cons]
        cases choice.take item with
        | error result => rfl
        | ok choice => exact induction next choice

/-! ## Lines of plain text -/

theorem Feed.ofItems_append_error (items : List Delivery) (failure : ReadFailure) :
    ofItems (items ++ [.error failure]) none = ofItems items (some failure) :=
  List.foldr_append

namespace PlainText

/-- A reader has given the lines that ended in what it has read, and is left with the rest. -/
theorem reads_lines {line : Bytes} (unbroken : Byte.lineFeed ∉ line) (number : Nat)
    (data : Bytes) :
    let cut := Bytes.lines (line.reverse ++ data)
    (NameSearch.Reader.lines ⟨line, number⟩).reads data =
      (.lines ⟨cut.2.reverse, number + cut.1.length⟩,
        items number (cut.1.map Bytes.dropReturn)) := by
  induction data generalizing line number with
  | nil =>
      have whole : Bytes.lines (line.reverse ++ []) = ([], line.reverse) := by
        rw [List.append_nil]
        exact Bytes.lines_of_unbroken (by simpa using unbroken)
      simp only [whole, List.reverse_reverse]
      rfl
  | cons byte later induction =>
      rw [NameSearch.Reader.reads, NameSearch.Reader.step, Reader.step]
      by_cases ended : byte = Byte.lineFeed
      · subst ended
        have apart : Byte.lineFeed ∉ line.reverse := by simpa using unbroken
        simp only [if_true, induction List.not_mem_nil, Bytes.lines_of_line apart later,
          List.reverse_nil, List.nil_append, List.map_cons, items_cons, List.length_cons]
        rw [Nat.add_assoc, Nat.add_comm 1]
        rfl
      · have longer : Byte.lineFeed ∉ byte :: line :=
          List.not_mem_cons_of_ne_of_not_mem (Ne.symm ended) unbroken
        simp only [ended, if_false, induction longer, List.reverse_cons, List.append_assoc,
          List.singleton_append]
        rfl

theorem feed_eq_items (input : Input) :
    feed input = Feed.ofItems ((NameSearch.Reader.lines {}).items input) none := by
  have reads := reads_lines List.not_mem_nil 1 input.data
  simp only [List.reverse_nil, List.nil_append] at reads
  rw [feed_eq, lines, NameSearch.Reader.items, reads]
  generalize Bytes.lines input.data = cut
  obtain ⟨ended, rest⟩ := cut
  cases input.failure with
  | some reason =>
      simp [NameSearch.Reader.last?, Reader.last?, Feed.ofItems_append_error, Nat.add_comm]
  | none =>
      cases rest with
      | nil => simp [NameSearch.Reader.last?, Reader.last?]
      | cons byte rest =>
          simp [NameSearch.Reader.last?, Reader.last?, items_append]
          rfl

end PlainText

/-! ## Records of a table -/

namespace Csv.Scanner

/-- The same scanner behind some records besides. -/
def behind (records : List Record) (scanner : Scanner) : Scanner :=
  { scanner with records := scanner.records ++ records }

theorem behind_records (scanner : Scanner) :
    { scanner with records := [] }.behind scanner.records = scanner := rfl

theorem step_behind (records : List Record) (scanner : Scanner) (byte : UInt8) :
    (scanner.behind records).step byte = (scanner.step byte).behind records := by
  simp only [step, behind, count]
  cases scanner.stage <;> simp only [readFirst, readPlain, push, endField, endRecord] <;>
    split_ifs <;> rfl

theorem foldl_step_behind (records : List Record) (scanner : Scanner) (data : Bytes) :
    data.foldl step (scanner.behind records) = (data.foldl step scanner).behind records := by
  induction data generalizing scanner with
  | nil => rfl
  | cons byte later induction => rw [List.foldl_cons, step_behind, induction, List.foldl_cons]

@[simp]
theorem ended_behind (records : List Record) (scanner : Scanner) :
    (scanner.behind records).ended = records.reverse ++ scanner.ended :=
  List.reverse_append

theorem records_step {scanner : Scanner} (none : scanner.records = []) (byte : UInt8) :
    (scanner.step byte).records = [] ∨ ∃ record, (scanner.step byte).records = [record] := by
  have moves := moves_step scanner byte
  generalize scanner.step byte = next at moves
  cases moves with
  | passes => exact .inl none
  | ends => exact .inr ⟨_, congrArg (List.cons _) none⟩
  | reads _ _ _ records => exact .inl (records.trans none)

end Csv.Scanner

namespace Table

/-- What some records give, the first of which has the given number; the number of a heading is
zero. -/
def given (headed : Bool) (number : Nat) (records : List Csv.Record) : List Delivery :=
  (records.zipIdx number).map fun (record, number) => item headed number record

@[simp]
theorem given_cons (headed : Bool) (number : Nat) (record : Csv.Record)
    (later : List Csv.Record) :
    given headed number (record :: later) =
      item headed number record :: given headed (number + 1) later := rfl

namespace Reader

/-- Whether some data does not complete a byte order mark. -/
def IsUnmarkedBy (reader : Reader) (data : Bytes) : Prop :=
  ∀ first rest, reader.mark = some (first :: rest) → ¬first :: rest <+: data

variable {reader : Reader} {byte : UInt8} {later : Bytes}

theorem markBehind_eq_some {rest : Bytes} (left : reader.markBehind byte = some rest) :
    reader.mark = some (byte :: rest) := by
  rw [markBehind] at left
  split at left
  · next first more marked =>
      split at left
      · next same => rw [marked, same, Option.some.inj left]
      · cases left
  · cases left

theorem markBehind_ne (unmarked : reader.IsUnmarkedBy (byte :: later)) :
    reader.markBehind byte ≠ some [] := fun left =>
  unmarked byte [] (markBehind_eq_some left) ⟨later, rfl⟩

theorem IsUnmarkedBy.behind (unmarked : reader.IsUnmarkedBy (byte :: later)) {next : Reader}
    (mark : next.mark = reader.markBehind byte) : next.IsUnmarkedBy later := by
  intro first rest marked part
  refine unmarked byte (first :: rest) (markBehind_eq_some (mark.symm.trans marked)) ?_
  exact (List.prefix_cons_inj byte).mpr part

end Reader

/-- A reader has given the records that ended in what it has read. -/
theorem reads_table {reader : Reader} (fresh : reader.scanner.records = []) {data : Bytes}
    (unmarked : reader.IsUnmarkedBy data) :
    let scanner := data.foldl Csv.Scanner.step reader.scanner
    ∃ mark, (mark = some [] ↔ data = [] ∧ reader.mark = some []) ∧
      (NameSearch.Reader.table reader).reads data =
        (.table ⟨reader.headed, reader.number + scanner.ended.length, mark,
            { scanner with records := [] }⟩,
          given reader.headed reader.number scanner.ended) := by
  induction data generalizing reader with
  | nil =>
      refine ⟨reader.mark, by simp, ?_⟩
      obtain ⟨headed, number, mark, scanner⟩ := reader
      obtain ⟨stage, field, fields, start, line, byte, records⟩ := scanner
      obtain rfl : records = [] := fresh
      rfl
  | cons byte later induction =>
      have unended := Reader.markBehind_ne unmarked
      have scannerBehind : reader.scannerBehind byte = reader.scanner.step byte := if_neg unended
      rw [NameSearch.Reader.reads, NameSearch.Reader.step, Reader.step, scannerBehind]
      rcases Csv.Scanner.records_step fresh byte with none | ⟨record, one⟩
      · let next : Reader :=
          { reader with mark := reader.markBehind byte, scanner := reader.scanner.step byte }
        obtain ⟨mark, marked, reads⟩ := @induction next none (unmarked.behind rfl)
        refine ⟨mark, by simp [marked, next, unended], ?_⟩
        simp only [none]
        exact reads
      · let next : Reader :=
          ⟨reader.headed, reader.number + 1, reader.markBehind byte,
            { reader.scanner.step byte with records := [] }⟩
        obtain ⟨mark, marked, reads⟩ := @induction next rfl (unmarked.behind rfl)
        refine ⟨mark, by simp [marked, next, unended], ?_⟩
        have behind := Csv.Scanner.behind_records (reader.scanner.step byte)
        rw [one] at behind
        rw [List.foldl_cons, ← behind, Csv.Scanner.foldl_step_behind, Csv.Scanner.ended_behind]
        simp only [behind, one]
        rw [reads, List.length_append, ← Nat.add_assoc]
        rfl

/-- A byte order mark is passed over; a reader that has come no further knows that. -/
theorem reads_start (headed : Bool) (number : Nat) (data : Bytes) :
    let scanner := Csv.scan data
    ∃ mark, (mark = some [] ↔ data = Csv.byteOrderMark) ∧
      (NameSearch.Reader.table { headed, number }).reads data =
        (.table ⟨headed, number + scanner.ended.length, mark, { scanner with records := [] }⟩,
          given headed number scanner.ended) := by
  cases marked : Csv.byteOrderMark.isPrefixOf? data with
  | some rest =>
      obtain rfl := List.isPrefixOf?_eq_some_iff_append_eq.mp marked
      have scanned : Csv.scan (Csv.byteOrderMark ++ rest) =
          rest.foldl Csv.Scanner.step { byte := Csv.byteOrderMark.length } := by
        rw [Csv.scan, Csv.skipMark, marked]
      let behind : Reader := ⟨headed, number, some [], { byte := Csv.byteOrderMark.length }⟩
      have unmarked : behind.IsUnmarkedBy rest := fun first rest same => by cases same
      obtain ⟨mark, isMark, reads⟩ := @reads_table behind rfl rest unmarked
      refine ⟨mark, by simp [isMark, behind], ?_⟩
      rw [scanned, ← reads]
      rfl
  | none =>
      have scanned : Csv.scan data = data.foldl Csv.Scanner.step {} := by
        rw [Csv.scan, Csv.skipMark, marked]
      have apart : ¬Csv.byteOrderMark <+: data := by
        rintro ⟨rest, whole⟩
        rw [List.isPrefixOf?_eq_some_iff_append_eq.mpr whole] at marked
        cases marked
      have unmarked : Reader.IsUnmarkedBy { headed, number } data := by
        rintro first rest same
        exact (Option.some.inj same) ▸ apart
      obtain ⟨mark, isMark, reads⟩ := @reads_table { headed, number } rfl data unmarked
      refine ⟨mark, ?_, ?_⟩
      · rw [isMark]
        constructor
        · rintro ⟨-, same⟩
          cases same
        · rintro rfl
          exact absurd (List.prefix_refl _) apart
      · rw [scanned]
        exact reads

theorem given_of_pos (headed : Bool) {number : Nat} (positive : 0 < number)
    (records : List Csv.Record) : given headed number records = items headed number records := by
  induction records generalizing number with
  | nil => rfl
  | cons record later induction =>
      rw [given_cons, items_cons, item, if_neg positive.ne', induction (Nat.succ_pos number)]

/-- A heading gives nothing. -/
theorem ofItems_given (headed : Bool) (records : List Csv.Record) (later : List Delivery) :
    Feed.ofItems (given headed (if headed then 0 else 1) records ++ later) none =
      Feed.ofItems (items headed 1 (records.drop (if headed then 1 else 0)) ++ later) none := by
  cases headed with
  | false => simp [given_of_pos]
  | true =>
      cases records with
      | nil => rfl
      | cons record records =>
          have behind := given_of_pos true Nat.one_pos records
          simp only [if_true, given_cons, List.drop_one, List.tail_cons, List.cons_append,
            Feed.ofItems_cons, item, Nat.zero_add, behind, Feed.deliver]

theorem given_concat (headed : Bool) (number : Nat) (records : List Csv.Record)
    (record : Csv.Record) :
    given headed number (records ++ [record]) =
      given headed number records ++ [item headed (number + records.length) record] := by
  rw [given, List.zipIdx_append, List.map_append]
  rfl

theorem given_finish (headed : Bool) (number : Nat) (scanner : Csv.Scanner) :
    given headed number scanner.finish =
      given headed number scanner.ended ++
        (if scanner.stage = .outside then none
          else some (item headed (number + scanner.ended.length) scanner.record)).toList := by
  rw [Csv.Scanner.finish]
  split
  · exact (List.append_nil _).symm
  · rw [Csv.Scanner.ended, Csv.Scanner.endRecord, List.reverse_cons, given_concat]
    rfl

theorem feed_eq_items (headed : Bool) (input : Input) :
    feed headed input =
      Feed.ofItems
        ((NameSearch.Reader.table { headed, number := if headed then 0 else 1 }).items input)
        none := by
  obtain ⟨data, failure⟩ := input
  obtain ⟨mark, marked, reads⟩ := reads_start headed (if headed then 0 else 1) data
  have finished := ofItems_given headed (Csv.scan data).finish []
  have ended := ofItems_given headed (Csv.scan data).ended
  simp only [List.append_nil] at finished
  rw [feed_eq, NameSearch.Reader.items, reads]
  simp only [NameSearch.Reader.last?, Reader.last?, marked]
  cases failure with
  | none =>
      have all : Csv.received ⟨data, none⟩ = ⟨data, none⟩ := ite_self _
      rw [all, Csv.records]
      exact finished.symm.trans (congrArg (Feed.ofItems · none) (given_finish _ _ _))
  | some reason =>
      dsimp only
      by_cases only : data = Csv.byteOrderMark
      · subst only
        have taken : Csv.received ⟨Csv.byteOrderMark, some reason⟩ = ⟨Csv.byteOrderMark, none⟩ :=
          if_pos rfl
        have nothing : Csv.scan Csv.byteOrderMark = { byte := Csv.byteOrderMark.length } := by
          decide
        rw [taken, if_pos rfl, ended, Csv.records, nothing, Option.toList_none, List.append_nil]
        rfl
      · have all : Csv.received ⟨data, some reason⟩ = ⟨data, some reason⟩ := if_neg only
        have count : max ((if headed then 0 else 1) + (Csv.scan data).ended.length) 1 =
            ((Csv.scan data).ended.drop (if headed then 1 else 0)).length + 1 := by
          cases headed <;> simp <;> omega
        rw [all, Csv.records, if_neg only, count, ended]
        exact (Feed.ofItems_append_error _ _).symm

end Table

/-! ## Choices -/

namespace Reading

/-- It makes no difference how the bytes are divided into pieces. -/
theorem foldlM_feed (reading : Reading) (pieces : List Bytes) :
    pieces.foldlM feed reading = reading.feed pieces.flatten := by
  induction pieces generalizing reading with
  | nil => rfl
  | cons piece later induction =>
      simp only [List.foldlM_cons, List.flatten_cons, induction]
      exact List.foldlM_append.symm

/-- A choice that ends with some byte is made whatever comes behind it. -/
theorem through_of_feed_eq_error {reading : Reading} {front : Bytes} {result : Choice.Result}
    (ended : reading.feed front = .error result) (later : Bytes) (failure : Option String) :
    reading.through ⟨front ++ later, failure⟩ = result := by
  have fed : reading.feed (front ++ later) = .error result := by
    rw [feed, List.foldlM_append]
    exact congrArg (· >>= _) ended
  rw [through, fed]

end Reading

namespace Settings

variable (settings : Settings) (input : Input)

theorem feed_eq_items : settings.feed input = Feed.ofItems (settings.reader.items input) none := by
  rw [feed, reader]
  cases settings.layout with
  | lines => exact PlainText.feed_eq_items input
  | table headed => exact Table.feed_eq_items headed input

/-- Entries that are chosen byte by byte are those that are chosen from the whole input. -/
theorem through_selecting (query : Query) (comparison : Option Comparison) :
    (settings.selecting query comparison).through input =
      settings.select query comparison input := by
  rw [Reading.through_eq, selecting, Choice.conclude_foldlM_take, ← feed_eq_items, select,
    Feed.scan]

theorem through_loading :
    settings.loading.through input =
      (settings.readAll input).map fun entries => ⟨entries.length, entries⟩ := by
  rw [Reading.through_eq, loading, Choice.conclude_foldlM_take, ← feed_eq_items, readAll]
  have all := @Feed.scan_of_lt (fun _ => true) 0 (settings.feed input) (.inl rfl)
  rw [Feed.scan] at all
  rw [all]
  cases (settings.feed input).load with
  | error failure => rfl
  | ok entries => simp [Except.map]

end Settings
end NameSearch
