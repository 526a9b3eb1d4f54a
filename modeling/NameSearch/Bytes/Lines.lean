import NameSearch.Bytes

/-!
# Lines

A line feed ends a line.  Bytes after the last line feed are a rest, which is a line of its own
only where the input ends there.
-/

namespace NameSearch
namespace Bytes

/-- Put a byte in front of the first of some lines, or of the rest if there is none. -/
def extendFirst (byte : UInt8) : List Bytes × Bytes → List Bytes × Bytes
  | ([], rest) => ([], byte :: rest)
  | (line :: lines, rest) => ((byte :: line) :: lines, rest)

/-- The lines ended by a line feed, without it, and the rest that no line feed ends. -/
def lines (data : Bytes) : List Bytes × Bytes :=
  data.foldr
    (fun byte split =>
      if byte = Byte.lineFeed then ([] :: split.1, split.2) else extendFirst byte split)
    ([], [])

/-- A line feed behind each line, and the rest behind them, give the data back. -/
theorem flatMap_lines_append (data : Bytes) :
    (lines data).1.flatMap (· ++ [Byte.lineFeed]) ++ (lines data).2 = data := by
  induction data with
  | nil => rfl
  | cons byte data induction =>
      simp only [lines, List.foldr_cons] at *
      split
      · next ended => simp [ended, induction]
      · generalize List.foldr _ _ data = split at *
        rcases split with ⟨_ | ⟨line, later⟩, rest⟩ <;> simp_all [extendFirst]

/-- Drop one carriage return from the end, if there is one. -/
def dropReturn (line : Bytes) : Bytes :=
  if line.getLast? = some Byte.carriageReturn then line.dropLast else line

end Bytes
end NameSearch
