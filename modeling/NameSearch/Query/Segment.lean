import NameSearch.Query.Token

/-!
# Segments of a raw query

A raw query is cut from left to right into segments: single blanks, bare words up to the next
blank, and quotations up to the mark that closes them.  A quotation that nothing closes reaches to
the end.  The segments written one after the other are the query again, so each of them lies at
the position where those before it end.
-/

namespace NameSearch

/-- One cut of a raw query. -/
inductive Segment where
  /-- A single blank between tokens. -/
  | blank (byte : UInt8)
  /-- A word up to the next blank; quotation marks inside it are letters. -/
  | bare (text : Bytes)
  /-- A quotation with both its marks. -/
  | quoted (quote : Quote) (text : Bytes)
  /-- A quotation that reaches the end of the query without its closing mark. -/
  | unclosed (quote : Quote) (text : Bytes)
  deriving DecidableEq

namespace Segment

/-- The blanks that separate tokens: space, tab, carriage return and line feed. -/
def isBlank (byte : UInt8) : Bool :=
  byte == Byte.space || byte == Byte.tab || Byte.isLineEnd byte

/-- The bytes of the raw query that the segment covers. -/
def source : Segment → Bytes
  | blank byte => [byte]
  | bare text => text
  | quoted quote text => quote.byte :: text ++ [quote.byte]
  | unclosed quote text => quote.byte :: text

/-- The token in a segment; blanks hold none. -/
def token? : Segment → Option Token
  | blank _ => none
  | bare text => some ⟨text, none⟩
  | quoted quote text => some ⟨text, some quote⟩
  | unclosed quote text => some ⟨text, some quote⟩

/-- Whether the segment is a quotation without its closing mark. -/
def isUnclosed : Segment → Bool
  | unclosed _ _ => true
  | _ => false

/-- The segment that a byte and what follows it start with, and the bytes after that segment. -/
def front (first : UInt8) (rest : Bytes) : Segment × Bytes :=
  if isBlank first then (blank first, rest)
  else
    match Quote.ofByte? first with
    | none => (bare (first :: rest.takeWhile (!isBlank ·)), rest.dropWhile (!isBlank ·))
    | some quote =>
      match rest.dropWhile (· != first) with
      | [] => (unclosed quote rest, [])
      | _ :: after => (quoted quote (rest.takeWhile (· != first)), after)

theorem source_front (first : UInt8) (rest : Bytes) :
    (front first rest).1.source ++ (front first rest).2 = first :: rest := by
  unfold front
  split
  · rfl
  · split
    · simp [source]
    · next quote isQuote =>
      have opened := Quote.byte_of_ofByte? isQuote
      split
      · simp [source, opened]
      · next mark after dropped =>
        have closed : mark = first := by
          have stopped := List.head?_dropWhile_not (· != first) rest
          rw [dropped] at stopped
          simpa using stopped
        have joined : rest.takeWhile (· != first) ++ rest.dropWhile (· != first) = rest :=
          List.takeWhile_append_dropWhile
        rw [dropped, closed] at joined
        simp [source, opened, joined]

theorem source_front_ne_nil (first : UInt8) (rest : Bytes) :
    (front first rest).1.source ≠ [] := by
  unfold front
  split
  · simp [source]
  · split
    · simp [source]
    · split <;> simp [source]

theorem length_front_le (first : UInt8) (rest : Bytes) :
    (front first rest).2.length ≤ rest.length := by
  have whole := congrArg List.length (source_front first rest)
  have positive := List.length_pos_iff.mpr (source_front_ne_nil first rest)
  simp only [List.length_append, List.length_cons] at whole
  omega

end Segment

/-- Cut a raw query into segments. -/
def segments : Bytes → List Segment
  | [] => []
  | first :: rest => (Segment.front first rest).1 :: segments (Segment.front first rest).2
termination_by raw => raw.length
decreasing_by
  have bound := Segment.length_front_le first rest
  simp only [List.length_cons]
  omega

/-- The segments written one after the other are the raw query. -/
theorem flatMap_source_segments (raw : Bytes) : (segments raw).flatMap Segment.source = raw := by
  fun_induction segments raw with
  | case1 => rfl
  | case2 first rest induction =>
      rw [List.flatMap_cons, induction, Segment.source_front]

/-- A quotation that is opened and never closed, with the position of its opening mark. -/
structure UnclosedQuote where
  /-- Index of the opening mark in the raw query. -/
  position : Nat
  deriving DecidableEq

/-- What is said about a quotation that is never closed. -/
def UnclosedQuote.message (unclosed : UnclosedQuote) : String :=
  s!"unterminated quote starting at byte {unclosed.position} (zero-based)"

/-- Where the first unclosed quotation of some segments starts, when the first segment is at
`position`. -/
def unclosedFrom (position : Nat) : List Segment → Option UnclosedQuote
  | [] => none
  | segment :: later =>
    if segment.isUnclosed then some ⟨position⟩
    else unclosedFrom (position + segment.source.length) later

/-- Split a raw query into tokens.  A quotation that reaches the end unclosed is a token if
`tolerant`, and otherwise refused. -/
def tokenize (tolerant : Bool) (raw : Bytes) : Except UnclosedQuote (List Token) :=
  match tolerant, unclosedFrom 0 (segments raw) with
  | false, some unclosed => .error unclosed
  | _, _ => .ok ((segments raw).filterMap Segment.token?)

end NameSearch
