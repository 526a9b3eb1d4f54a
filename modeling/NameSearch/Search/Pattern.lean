import NameSearch.Query.Token
import NameSearch.Search.Comparison

/-!
# Patterns

A term of a query is a text with an anchor on each side.  Anchors are written as the first and last
byte of the token: a space asks for the edge of a word, a caret or a dollar sign for the edge of a
field.  A quoted token of one word is a whole word without being anchored.
-/

namespace NameSearch

/-- What a pattern asks of the byte next to the place where it occurs. -/
inductive Anchor where
  /-- Nothing. -/
  | free
  /-- The edge of a word. -/
  | word
  /-- The edge of a field. -/
  | field
  deriving DecidableEq

namespace Anchor

/-- Bytes that stand between words: NUL, the field separator, space, tab, dot, slash and
backslash. -/
def isBreak (byte : UInt8) : Bool :=
  byte == 0 || byte == Byte.separator || byte == Byte.space || byte == Byte.tab || byte == 46
    || byte == 47 || byte == 92

/-- Whether a neighbouring byte is allowed; the edge of the candidate always is. -/
def allows : Anchor → Option UInt8 → Bool
  | _, none => true
  | free, some _ => true
  | word, some byte => isBreak byte
  | field, some byte => byte == Byte.separator

end Anchor

/-- A text to be searched for and what stands around it. -/
structure Pattern where
  /-- The text without its anchors. -/
  text : Bytes
  /-- What stands in front of it. -/
  left : Anchor
  /-- What stands after it. -/
  right : Anchor
  /-- A quoted word is always compared exactly. -/
  isQuotedWord : Bool
  deriving DecidableEq

namespace Pattern

/-- The anchor that a first byte is. -/
def leftAnchor : Option UInt8 → Anchor
  | some byte => if byte = Byte.space then .word else if byte = 94 then .field else .free
  | none => .free

/-- The anchor that a last byte is. -/
def rightAnchor : Option UInt8 → Anchor
  | some byte => if byte = Byte.space then .word else if byte = 36 then .field else .free
  | none => .free

/-- A side without an anchor becomes the edge of a word. -/
def orWord : Anchor → Anchor
  | .free => .word
  | anchor => anchor

/-- Whether a text is one word: neither space nor tab stands in it. -/
def isOneWord (text : Bytes) : Bool :=
  !text.any fun byte => byte == Byte.space || byte == Byte.tab

/-- The pattern that a token asks for.  A token of anchors only is searched for as it stands. -/
def ofToken (token : Token) : Pattern :=
  let left := leftAnchor token.text.head?
  let afterLeft := if left = .free then token.text else token.text.tail
  let right := rightAnchor afterLeft.getLast?
  let text := if right = .free then afterLeft else afterLeft.dropLast
  if text = [] then ⟨token.text, .free, .free, false⟩
  else if token.isQuoted && isOneWord text then ⟨text, orWord left, orWord right, true⟩
  else ⟨text, left, right, false⟩

/-- Whether an occurrence of some length at an offset counts: it is not empty, lies in the candidate
and has allowed neighbours. -/
def fits (pattern : Pattern) (candidate : Bytes) (offset length : Nat) : Bool :=
  length != 0 && decide (offset + length ≤ candidate.length)
    && pattern.left.allows (if offset = 0 then none else candidate[offset - 1]?)
    && pattern.right.allows candidate[offset + length]?

end Pattern
end NameSearch
