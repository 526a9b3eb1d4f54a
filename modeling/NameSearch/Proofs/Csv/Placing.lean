import Mathlib.Data.List.DropRight
import NameSearch.Proofs.Csv.Rereading

/-!
# Lines that records are placed on

A record is placed on the line where the record before it had ended, which is not always the line
of its first byte: a line end is one byte, so that the line feed behind a carriage return, like all
line ends of blank lines, is passed over between the two records.
-/

namespace NameSearch
namespace Csv

/-! ## Where records start -/

/-- What stands in front of each record that starts while a scanner that is behind `front` reads
on. -/
def startsFrom (scanner : Scanner) (front : Bytes) : Bytes → List Bytes
  | [] => []
  | byte :: later =>
    let behind := startsFrom (scanner.step byte) (front ++ [byte]) later
    if scanner.stage = .outside ∧ Byte.isLineEnd byte = false then front :: behind else behind

/-- What stands in front of each record of some data, from the first byte of the data up to the
first byte of the record. -/
def starts (data : Bytes) : List Bytes :=
  let (scanner, rest) := skipMark data
  startsFrom scanner (data.take scanner.byte) rest

/-- The line ends that are passed over between a record and the one before it, when `number` records
stand in front of it and `front` are the bytes there.  The first line end behind a record is not
among them, since it ends the record. -/
def passedOver (number : Nat) (front : Bytes) : Bytes :=
  let ends := front.rtakeWhile Byte.isLineEnd
  if number = 0 then ends else ends.tail

theorem mem_startsFrom {scanner : Scanner} {front data start : Bytes}
    (member : start ∈ startsFrom scanner front data) :
    ∃ byte later, front ++ data = start ++ byte :: later ∧ Byte.isLineEnd byte = false := by
  induction data generalizing scanner front with
  | nil => cases member
  | cons byte data induction =>
      have further (behind : start ∈ startsFrom (scanner.step byte) (front ++ [byte]) data) :
          ∃ next later, front ++ byte :: data = start ++ next :: later ∧
            Byte.isLineEnd next = false := by
        rw [List.append_cons]
        exact induction behind
      rw [startsFrom] at member
      split at member
      · next opens =>
          rcases List.mem_cons.mp member with rfl | behind
          · exact ⟨byte, data, rfl, opens.2⟩
          · exact further behind
      · exact further member

theorem skipMark_cases (data : Bytes) :
    ∃ mark rest, data = mark ++ rest ∧ skipMark data = ({ byte := mark.length }, rest) ∧
      (mark = [] ∨ mark = byteOrderMark) := by
  rw [skipMark]
  split
  · next rest marked =>
      have whole := List.isPrefixOf?_eq_some_iff_append_eq.mp marked
      exact ⟨byteOrderMark, rest, whole.symm, rfl, .inr rfl⟩
  · exact ⟨[], data, rfl, rfl, .inl rfl⟩

theorem starts_eq (data : Bytes) :
    ∃ mark rest, data = mark ++ rest ∧ Byte.lineFeed ∉ mark ∧
      scan data = rest.foldl Scanner.step { byte := mark.length } ∧
      starts data = startsFrom { byte := mark.length } mark rest := by
  obtain ⟨mark, rest, rfl, skipped, either⟩ := skipMark_cases data
  refine ⟨mark, rest, rfl, ?_, ?_, ?_⟩
  · rcases either with rfl | rfl <;> decide
  · rw [scan, skipped]
  · simp only [starts, skipped, List.take_left]

theorem exists_of_mem_starts {data front : Bytes} (member : front ∈ starts data) :
    ∃ byte later, data = front ++ byte :: later ∧ Byte.isLineEnd byte = false := by
  obtain ⟨mark, rest, rfl, -, -, same⟩ := starts_eq data
  rw [same] at member
  exact mem_startsFrom member

/-! ## Moves of the scanner -/

namespace Scanner

/-- What a byte does to a scanner, as far as records are concerned. -/
inductive Moves (scanner : Scanner) (byte : UInt8) : Scanner → Prop
  /-- Between records a line end is passed over. -/
  | passes (outside : scanner.stage = .outside) (lineEnd : Byte.isLineEnd byte = true) :
      Moves scanner byte (scanner.count byte)
  /-- A line end behind a field ends the record. -/
  | ends (endable : scanner.IsEndable) (lineEnd : Byte.isLineEnd byte = true) :
      Moves scanner byte (scanner.count byte).endRecord
  /-- Any other byte is read into the record; at a line end the record cannot end behind it. -/
  | reads {next : Scanner} (opens : scanner.stage = .outside → Byte.isLineEnd byte = false)
      (inside : next.stage ≠ .outside) (start : next.start = scanner.start)
      (records : next.records = scanner.records) (line : next.line = (scanner.count byte).line)
      (endable : next.IsEndable → Byte.isLineEnd byte = false) : Moves scanner byte next

variable {scanner : Scanner} {byte : UInt8}

theorem IsEndable.ne_outside (endable : scanner.IsEndable) : scanner.stage ≠ .outside := by
  intro outside
  simp [IsEndable, outside] at endable

theorem moves_readPlain
    (free : scanner.IsEndable ∨ scanner.stage = .outside ∧ Byte.isLineEnd byte = false) :
    scanner.Moves byte ((scanner.count byte).readPlain byte) := by
  have opens : scanner.stage = .outside → Byte.isLineEnd byte = false := by
    intro outside
    rcases free with endable | ⟨-, text⟩
    · exact absurd outside endable.ne_outside
    · exact text
  rw [readPlain]
  split
  · next comma =>
      subst comma
      exact .reads opens (by simp [endField]) rfl rfl rfl fun _ => rfl
  · split
    · next lineEnd =>
        refine .ends (free.resolve_right ?_) lineEnd
        rintro ⟨-, text⟩
        rw [text] at lineEnd
        cases lineEnd
    · next text =>
        exact .reads opens (by simp [push]) rfl rfl rfl fun _ => Bool.eq_false_iff.mpr text

theorem moves_readFirst
    (free : scanner.IsEndable ∨ scanner.stage = .outside ∧ Byte.isLineEnd byte = false) :
    scanner.Moves byte ((scanner.count byte).readFirst byte) := by
  rw [readFirst]
  split
  · next quote =>
      subst quote
      exact .reads (fun _ => rfl) (by simp) rfl rfl rfl fun _ => rfl
  · exact moves_readPlain free

theorem moves_step (scanner : Scanner) (byte : UInt8) :
    scanner.Moves byte (scanner.step byte) := by
  have stageCount : (scanner.count byte).stage = scanner.stage := rfl
  rw [step]
  cases stage : scanner.stage with
  | outside =>
      simp only [stageCount, stage]
      split
      · next lineEnd => exact .passes stage lineEnd
      · next text => exact moves_readFirst (.inr ⟨stage, Bool.eq_false_iff.mpr text⟩)
  | fieldStart =>
      simp only [stageCount, stage]
      exact moves_readFirst (.inl (.inl stage))
  | plain =>
      simp only [stageCount, stage]
      exact moves_readPlain (.inl (.inr (.inl stage)))
  | quoted =>
      have opens : scanner.stage = .outside → Byte.isLineEnd byte = false := by simp [stage]
      simp only [stageCount, stage]
      split
      · next quote =>
          subst quote
          exact .reads opens (by simp) rfl rfl rfl fun _ => rfl
      · refine .reads opens (by simp [push]) rfl rfl rfl fun endable => ?_
        simp [push, IsEndable] at endable
  | afterQuote =>
      simp only [stageCount, stage]
      split
      · next quote =>
          subst quote
          exact .reads (by simp [stage]) (by simp [push]) rfl rfl rfl fun _ => rfl
      · exact moves_readPlain (.inl (.inr (.inr stage)))

/-! ## Lines of records -/

/-- The lines that the records are placed on, that of the record in progress among them. -/
def lines (scanner : Scanner) : List Nat := scanner.finish.map fun record => record.place.line

theorem lines_of_outside (outside : scanner.stage = .outside) :
    scanner.lines = scanner.ended.map fun record => record.place.line := by
  rw [lines, finish, if_pos outside]

theorem lines_of_inside (inside : scanner.stage ≠ .outside) :
    scanner.lines = (scanner.ended.map fun record => record.place.line) ++ [scanner.start.line] := by
  rw [lines, finish, if_neg inside, ended, endRecord, List.reverse_cons, List.map_append]
  rfl

/-- A record is counted where its first byte is read, on the line it has been placed on before. -/
theorem lines_step (scanner : Scanner) (byte : UInt8) :
    (scanner.step byte).lines = scanner.lines ++
      if scanner.stage = .outside ∧ Byte.isLineEnd byte = false then [scanner.start.line]
      else [] := by
  have moves := moves_step scanner byte
  generalize scanner.step byte = next at moves
  cases moves with
  | passes outside lineEnd =>
      rw [if_neg (by simp [lineEnd]), List.append_nil]
      rfl
  | ends endable lineEnd =>
      rw [if_neg (by simp [lineEnd]), List.append_nil, lines_of_inside endable.ne_outside,
        lines_of_outside rfl, ended, endRecord, List.reverse_cons, List.map_append]
      rfl
  | reads opens inside start records line endable =>
      rw [lines_of_inside inside, ended, records, start]
      by_cases outside : scanner.stage = .outside
      · rw [if_pos ⟨outside, opens outside⟩, lines_of_outside outside, ended]
      · rw [if_neg (fun both => outside both.1), List.append_nil, lines_of_inside outside, ended]

end Scanner

/-! ## Places and starts -/

/-- A record is told to be on this line when `number` records stand in front of it and `front` are
the bytes there: the line of its first byte, less the line feeds that are passed over in front of
it. -/
def IsTold (number : Nat) (front : Bytes) (line : Nat) : Prop :=
  line + (passedOver number front).count Byte.lineFeed = 1 + front.count Byte.lineFeed

/-- What the bytes that a scanner has read tell of its state. -/
structure Scanner.IsBehind (scanner : Scanner) (front : Bytes) : Prop where
  /-- Every line feed starts a line. -/
  line : scanner.line = 1 + front.count Byte.lineFeed
  /-- Where no record is in progress, the next one has been placed. -/
  told : scanner.stage = .outside → IsTold scanner.records.length front scanner.start.line
  /-- Behind a record there is the line end that has ended it. -/
  ended : scanner.stage = .outside → scanner.records ≠ [] → front.rtakeWhile Byte.isLineEnd ≠ []
  /-- Where a line end would end the record, none has just been read. -/
  endable : scanner.IsEndable → front.rtakeWhile Byte.isLineEnd = []

theorem rtakeWhile_concat_ne_nil {front : Bytes} {byte : UInt8}
    (lineEnd : Byte.isLineEnd byte = true) :
    (front ++ [byte]).rtakeWhile Byte.isLineEnd ≠ [] := by
  rw [List.rtakeWhile_concat_pos _ _ _ lineEnd]
  exact List.append_ne_nil_of_right_ne_nil _ (List.cons_ne_nil byte [])

theorem passedOver_concat {number : Nat} {front : Bytes} {byte : UInt8}
    (lineEnd : Byte.isLineEnd byte = true)
    (behind : number ≠ 0 → front.rtakeWhile Byte.isLineEnd ≠ []) :
    passedOver number (front ++ [byte]) = passedOver number front ++ [byte] := by
  simp only [passedOver, List.rtakeWhile_concat_pos _ _ _ lineEnd]
  split
  · rfl
  · next later => exact List.tail_append_of_ne_nil (behind later)

theorem isTold_concat {number : Nat} {front : Bytes} {byte : UInt8} {line : Nat}
    (told : IsTold number front line) (lineEnd : Byte.isLineEnd byte = true)
    (behind : number ≠ 0 → front.rtakeWhile Byte.isLineEnd ≠ []) :
    IsTold number (front ++ [byte]) line := by
  rw [IsTold, passedOver_concat lineEnd behind, List.count_append, List.count_append,
    ← Nat.add_assoc, told, Nat.add_assoc]

/-- Right behind the line end that ends a record nothing has been passed over. -/
theorem isTold_of_ended {number : Nat} {front : Bytes} {byte : UInt8}
    (lineEnd : Byte.isLineEnd byte = true) (inside : front.rtakeWhile Byte.isLineEnd = []) :
    IsTold (number + 1) (front ++ [byte]) (1 + (front ++ [byte]).count Byte.lineFeed) := by
  rw [IsTold, passedOver, List.rtakeWhile_concat_pos _ _ _ lineEnd, inside]
  rfl

namespace Scanner

theorem line_count {scanner : Scanner} {front : Bytes} (behind : scanner.IsBehind front)
    (byte : UInt8) :
    (scanner.count byte).line = 1 + (front ++ [byte]).count Byte.lineFeed := by
  rw [count_eq_passed, passed, behind.line, List.count_append, Nat.add_assoc]

theorem IsBehind.step {scanner : Scanner} {front : Bytes} (behind : scanner.IsBehind front)
    (byte : UInt8) : (scanner.step byte).IsBehind (front ++ [byte]) := by
  have line := line_count behind byte
  have moves := moves_step scanner byte
  generalize scanner.step byte = next at moves
  cases moves with
  | passes outside lineEnd =>
      have ended : scanner.records.length ≠ 0 → front.rtakeWhile Byte.isLineEnd ≠ [] :=
        fun later => behind.ended outside (List.ne_nil_of_length_pos (Nat.pos_of_ne_zero later))
      exact ⟨line, fun _ => isTold_concat (behind.told outside) lineEnd ended,
        fun _ _ => rtakeWhile_concat_ne_nil lineEnd,
        fun endable => absurd outside endable.ne_outside⟩
  | ends endable lineEnd =>
      have told : IsTold (scanner.records.length + 1) (front ++ [byte])
          (1 + (front ++ [byte]).count Byte.lineFeed) :=
        isTold_of_ended lineEnd (behind.endable endable)
      rw [← line] at told
      exact ⟨line, fun _ => told, fun _ _ => rtakeWhile_concat_ne_nil lineEnd,
        fun endable => absurd rfl endable.ne_outside⟩
  | reads opens inside start records sameLine endable =>
      refine ⟨sameLine.trans line, fun outside => absurd outside inside,
        fun outside => absurd outside inside, fun ends => ?_⟩
      exact List.rtakeWhile_concat_neg _ _ _ (by simp [endable ends])

/-- While a scanner reads on, it places one record for each that starts, on the line that the bytes
in front of it tell. -/
theorem lines_foldl {scanner : Scanner} {front : Bytes} (behind : scanner.IsBehind front)
    (data : Bytes) :
    ∃ later, (data.foldl step scanner).lines = scanner.lines ++ later ∧
      List.Forall₂ (fun start line => IsTold start.2 start.1 line)
        ((startsFrom scanner front data).zipIdx scanner.lines.length) later := by
  induction data generalizing scanner front with
  | nil => exact ⟨[], (List.append_nil _).symm, .nil⟩
  | cons byte data induction =>
      obtain ⟨later, same, told⟩ := induction (behind.step byte)
      rw [lines_step] at same told
      rw [startsFrom]
      split at told
      · next opens =>
          have number : scanner.lines.length = scanner.records.length := by
            rw [lines_of_outside opens.1, List.length_map, ended, List.length_reverse]
          have here : IsTold scanner.lines.length front scanner.start.line :=
            number ▸ behind.told opens.1
          refine ⟨scanner.start.line :: later, ?_, ?_⟩
          · rw [List.foldl_cons, same, if_pos opens, List.append_assoc, List.singleton_append]
          · rw [if_pos opens, List.zipIdx_cons]
            rw [List.length_append] at told
            exact .cons here told
      · next goesOn =>
          refine ⟨later, ?_, ?_⟩
          · rw [List.foldl_cons, same, if_neg goesOn, List.append_nil]
          · rw [if_neg goesOn]
            rw [List.append_nil] at told
            exact told

end Scanner

/-- The records of some data are placed, one by one, where their starts tell. -/
theorem forall₂_starts (data : Bytes) :
    List.Forall₂ (fun start line => IsTold start.2 start.1 line) (starts data).zipIdx
      ((scan data).finish.map fun record => record.place.line) := by
  obtain ⟨mark, rest, -, unbroken, scanned, same⟩ := starts_eq data
  have absent : mark.count Byte.lineFeed = 0 := List.count_eq_zero_of_not_mem unbroken
  have nothing : (passedOver 0 mark).count Byte.lineFeed = 0 :=
    List.count_eq_zero_of_not_mem fun member =>
      unbroken ((List.rtakeWhile_suffix _ mark).subset member)
  have behind : Scanner.IsBehind { byte := mark.length } mark := by
    refine ⟨?_, fun _ => ?_, fun _ filled => absurd rfl filled, fun endable => ?_⟩
    · rw [absent]
    · rw [IsTold, absent]
      exact congrArg (1 + ·) nothing
    · exact absurd rfl endable.ne_outside
  obtain ⟨later, read, told⟩ := Scanner.lines_foldl behind rest
  rw [scanned, same]
  have all : (rest.foldl Scanner.step { byte := mark.length }).lines = later := by
    rw [read]
    rfl
  rw [← Scanner.lines, all]
  exact told

end Csv
end NameSearch
