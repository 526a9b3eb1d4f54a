import NameSearch.Bytes

/-!
# Comparing a search text with a candidate

A comparison looks at one offset of a candidate and answers how many of its bytes, from there on,
the search text covers; zero means that it does not occur there.  Two comparisons are given: the
exact one, and a loose one that passes over filler bytes on both sides.
-/

namespace NameSearch

/-- How many bytes of a candidate, from an offset on, a text covers: zero where it does not occur.
The arguments are the candidate, the offset and the text. -/
abbrev Comparison := Bytes → Nat → Bytes → Nat

namespace Comparison

/-- A byte of the search text accepts itself and, where it is an ASCII lowercase letter, its
uppercase form. -/
def accepts (sought byte : UInt8) : Bool :=
  sought == byte || (Byte.isLower sought && Byte.upper sought == byte)

/-- Every byte of the text accepts the byte at its place, and no place is missing. -/
def startsWith : Bytes → Bytes → Bool
  | [], _ => true
  | _ :: _, [] => false
  | sought :: text, byte :: candidate => accepts sought byte && startsWith text candidate

/-- The text covers as many bytes as it has, each accepted at its place. -/
def exact : Comparison := fun candidate offset text =>
  if startsWith text (candidate.drop offset) then text.length else 0

/-- Bytes that the loose comparison passes over: space, tab, hyphen, underscore and dot. -/
def isFiller (byte : UInt8) : Bool :=
  byte == Byte.space || byte == Byte.tab || byte == 45 || byte == 95 || byte == 46

/-- How many bytes the rest of a text covers after its first byte has been found.  A filler of the
text is met by the same byte or left out; any other byte is met after the fillers in front of
it. -/
def looseRest : Bytes → Bytes → Option Nat
  | [], _ => some 0
  | sought :: text, candidate =>
    if isFiller sought then
      match candidate with
      | [] => looseRest text []
      | byte :: later =>
        if accepts sought byte then (looseRest text later).map (· + 1)
        else looseRest text candidate
    else
      match candidate.dropWhile isFiller with
      | [] => none
      | byte :: later =>
        if accepts sought byte then
          (looseRest text later).map (· + ((candidate.takeWhile isFiller).length + 1))
        else none

/-- The first byte of the text is met at the offset itself, and fillers are passed over after
it. -/
def loose : Comparison := fun candidate offset text =>
  match text, candidate.drop offset with
  | sought :: later, byte :: following =>
    if accepts sought byte then ((looseRest later following).map (· + 1)).getD 0 else 0
  | _, _ => 0

end Comparison
end NameSearch
