import NameSearch.Bytes.Lines
import NameSearch.Bytes.Utf8
import NameSearch.Proofs.Bytes.Characters

/-!
# Cutting bytes into lines

Lines are what stands between line feeds, so that bytes put together from lines are cut into these
lines again.  The carriage return that is dropped behind a line is a character of its own: dropping
it makes no text of bytes that are none, and takes one character from a text.
-/

namespace NameSearch
namespace Bytes

/-! ## Line feeds -/

@[simp]
theorem lines_lineFeed (data : Bytes) :
    lines (Byte.lineFeed :: data) = ([] :: (lines data).1, (lines data).2) := rfl

@[simp]
theorem lines_cons {byte : UInt8} (other : byte ≠ Byte.lineFeed) (data : Bytes) :
    lines (byte :: data) = extendFirst byte (lines data) := by
  simp [lines, other]

/-- The lines and the rest behind them are the pieces between the line feeds. -/
theorem splitOn_eq_lines (data : Bytes) :
    data.splitOn Byte.lineFeed = (lines data).1 ++ [(lines data).2] := by
  induction data with
  | nil => rfl
  | cons byte data induction =>
      rw [List.splitOn_cons_eq_if_modifyHead, induction]
      by_cases ended : byte = Byte.lineFeed
      · simp [ended]
      · rw [if_neg (by simpa using ended), lines_cons ended]
        rcases lines data with ⟨_ | ⟨line, later⟩, rest⟩ <;> rfl

theorem length_lines (data : Bytes) : (lines data).1.length = data.count Byte.lineFeed := by
  induction data with
  | nil => rfl
  | cons byte data induction =>
      by_cases ended : byte = Byte.lineFeed
      · simp [ended, induction]
      · rw [lines_cons ended, List.count_cons_of_ne ended, ← induction]
        rcases lines data with ⟨_ | ⟨line, later⟩, rest⟩ <;> rfl

theorem mem_extendFirst {byte : UInt8} {split : List Bytes × Bytes} {line : Bytes}
    (member : line ∈ (extendFirst byte split).1 ++ [(extendFirst byte split).2]) :
    ∃ before ∈ split.1 ++ [split.2], line = before ∨ line = byte :: before := by
  obtain ⟨_ | ⟨first, later⟩, rest⟩ := split
  · exact ⟨rest, List.mem_singleton_self rest, .inr (List.mem_singleton.mp member)⟩
  · rcases List.mem_cons.mp member with same | behind
    · exact ⟨first, List.mem_cons_self, .inr same⟩
    · exact ⟨line, List.mem_cons_of_mem first behind, .inl rfl⟩

theorem unbroken_of_mem_lines {data line : Bytes}
    (member : line ∈ (lines data).1 ++ [(lines data).2]) : Byte.lineFeed ∉ line := by
  induction data generalizing line with
  | nil =>
      obtain rfl := List.mem_singleton.mp member
      exact List.not_mem_nil
  | cons byte data induction =>
      by_cases ended : byte = Byte.lineFeed
      · rw [ended, lines_lineFeed, List.cons_append] at member
        rcases List.mem_cons.mp member with rfl | later
        · exact List.not_mem_nil
        · exact induction later
      · rw [lines_cons ended] at member
        obtain ⟨before, inside, rfl | rfl⟩ := mem_extendFirst member
        · exact induction inside
        · exact List.not_mem_cons_of_ne_of_not_mem (Ne.symm ended) (induction inside)

/-- Bytes put together from lines and a rest are cut into them. -/
theorem lines_joined {ended : List Bytes} {rest : Bytes}
    (unbroken : ∀ line ∈ ended, Byte.lineFeed ∉ line) (last : Byte.lineFeed ∉ rest) :
    lines (ended.flatMap (· ++ [Byte.lineFeed]) ++ rest) = (ended, rest) := by
  have cut : (ended.flatMap (· ++ [Byte.lineFeed]) ++ rest).splitOn Byte.lineFeed =
      ended ++ [rest] := by
    induction ended with
    | nil => exact List.splitOn_eq_singleton last
    | cons line later induction =>
        obtain ⟨here, behind⟩ := List.forall_mem_cons.mp unbroken
        rw [List.flatMap_cons, List.append_assoc, List.append_assoc, List.singleton_append,
          List.splitOn_append_cons_self_of_not_mem here, induction behind, List.cons_append]
  rw [splitOn_eq_lines] at cut
  obtain ⟨front, back⟩ := List.append_inj' cut rfl
  exact Prod.ext front (List.singleton_inj.mp back)

theorem lines_of_unbroken {rest : Bytes} (unbroken : Byte.lineFeed ∉ rest) :
    lines rest = ([], rest) :=
  lines_joined (List.forall_mem_nil _) unbroken

theorem lines_of_line {line : Bytes} (unbroken : Byte.lineFeed ∉ line) (later : Bytes) :
    lines (line ++ Byte.lineFeed :: later) = (line :: (lines later).1, (lines later).2) := by
  induction line with
  | nil => exact lines_lineFeed later
  | cons byte line induction =>
      rw [List.mem_cons, not_or] at unbroken
      obtain ⟨other, unbroken⟩ := unbroken
      rw [List.cons_append, lines_cons (Ne.symm other), induction unbroken, extendFirst]

/-! ## Texts -/

/-- Whether some bytes are the encoding of a text. -/
def IsText (bytes : Bytes) : Prop := ∃ text, ofString text = bytes

theorem isText_iff {bytes : Bytes} : bytes.IsText ↔ bytes.text?.isSome = true := by
  rw [Option.isSome_iff_exists]
  exact exists_congr fun _ => text?_eq_some_iff.symm

instance (bytes : Bytes) : Decidable bytes.IsText := decidable_of_iff' _ isText_iff

theorem text?_eq_none_iff {bytes : Bytes} : bytes.text? = none ↔ ¬bytes.IsText := by
  rw [isText_iff, Option.not_isSome_iff_eq_none]

theorem ofString_injective : Function.Injective ofString := by
  intro text other same
  exact Option.some.inj (by rw [← text?_ofString, same, text?_ofString])

theorem ofString_eq_nil_iff {text : String} : ofString text = [] ↔ text = "" :=
  ⟨fun nothing => ofString_injective nothing, fun nothing => nothing ▸ rfl⟩

/-! ## Carriage returns -/

theorem unbroken_dropReturn {line : Bytes} (unbroken : Byte.lineFeed ∉ line) :
    Byte.lineFeed ∉ dropReturn line := by
  rw [dropReturn]
  split
  · exact fun member => unbroken ((List.dropLast_prefix line).subset member)
  · exact unbroken

@[simp]
theorem dropReturn_append (line : Bytes) : dropReturn (line ++ [Byte.carriageReturn]) = line := by
  rw [dropReturn, List.getLast?_concat, if_pos rfl, List.dropLast_concat]

theorem isText_append_return {line : Bytes} :
    (line ++ [Byte.carriageReturn]).IsText ↔ line.IsText := by
  constructor
  · rintro ⟨text, encoded⟩
    rw [ofString_eq_ofChars] at encoded
    have first (byte : UInt8) (head : [Byte.carriageReturn].head? = some byte) :
        byte.IsUTF8FirstByte := by
      obtain rfl := Option.some.inj head
      exact isUTF8FirstByte_of_ascii (by decide)
    obtain ⟨front, -, -, rfl, -⟩ := exists_cut_of_first encoded first
    exact ⟨String.ofList front, ofString_ofList front⟩
  · rintro ⟨text, rfl⟩
    exact ⟨text ++ "\r", ofString_append text "\r"⟩

theorem isText_dropReturn {line : Bytes} : (dropReturn line).IsText ↔ line.IsText := by
  rw [dropReturn]
  split
  · next ends =>
      obtain ⟨front, rfl⟩ := List.getLast?_eq_some_iff.mp ends
      rw [List.dropLast_concat, isText_append_return]
  · rfl

end Bytes

namespace Text

/-- Drop one carriage return from the end of a text, if there is one. -/
def dropReturn (text : String) : String :=
  if text.toList.getLast? = some '\r' then String.ofList text.toList.dropLast else text

theorem getLast?_append_return (text : String) :
    (text ++ "\r").toList.getLast? = some '\r' := by
  rw [String.toList_append]
  exact List.getLast?_concat

@[simp]
theorem dropReturn_append (text : String) : dropReturn (text ++ "\r") = text := by
  rw [dropReturn, if_pos (getLast?_append_return text), String.toList_append]
  exact (congrArg String.ofList List.dropLast_concat).trans String.ofList_toList

theorem dropReturn_eq_self {text : String} (unreturned : text.toList.getLast? ≠ some '\r') :
    dropReturn text = text := by
  rw [dropReturn, if_neg unreturned]

theorem exists_append_return {text : String} (returned : text.toList.getLast? = some '\r') :
    ∃ front, text = front ++ "\r" := by
  obtain ⟨front, whole⟩ := List.getLast?_eq_some_iff.mp returned
  refine ⟨String.ofList front, ?_⟩
  rw [← String.ofList_toList (s := text), whole, String.ofList_append]

end Text

theorem Bytes.dropReturn_ofString (text : String) :
    dropReturn (ofString text) = ofString (Text.dropReturn text) := by
  by_cases returned : text.toList.getLast? = some '\r'
  · obtain ⟨front, rfl⟩ := Text.exists_append_return returned
    rw [Text.dropReturn_append, ofString_append]
    exact dropReturn_append (ofString front)
  · rw [Text.dropReturn_eq_self returned, dropReturn, if_neg]
    intro ends
    obtain ⟨line, encoded⟩ := List.getLast?_eq_some_iff.mp ends
    obtain ⟨front, rfl⟩ := isText_append_return.mp ⟨text, encoded⟩
    obtain rfl : text = front ++ "\r" :=
      ofString_injective (encoded.trans (ofString_append front "\r").symm)
    exact returned (Text.getLast?_append_return front)

end NameSearch
