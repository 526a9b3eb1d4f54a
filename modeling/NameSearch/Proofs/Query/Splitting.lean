import NameSearch.Proofs.Bytes.Stopping
import NameSearch.Query

/-!
# Splitting raw queries

A blank behind closed quotations cuts a raw query in two: the segments in front of it and those
behind it are the segments of the two parts.  Tokens and parsed queries are cut in the same way.
-/

namespace NameSearch

namespace Quote

theorem ofByte?_eq_none {byte : UInt8} (other : ∀ quote : Quote, byte ≠ quote.byte) :
    ofByte? byte = none := by
  have noSingle : byte ≠ Byte.singleQuote := other .single
  have noDouble : byte ≠ Byte.doubleQuote := other .double
  rw [ofByte?, if_neg noSingle, if_neg noDouble]

@[simp]
theorem ofByte?_byte (quote : Quote) : ofByte? quote.byte = some quote := by
  cases quote <;> rfl

end Quote

/-! ## The front segment -/

namespace Segment

@[simp]
theorem isBlank_byte (quote : Quote) : isBlank quote.byte = false := by
  cases quote <;> rfl

theorem isBlank_of_ofByte? {first : UInt8} {quote : Quote}
    (isQuote : Quote.ofByte? first = some quote) : isBlank first = false := by
  rw [← Quote.byte_of_ofByte? isQuote]
  exact isBlank_byte quote

theorem front_blank {first : UInt8} (blank : isBlank first = true) (rest : Bytes) :
    front first rest = (Segment.blank first, rest) := by
  rw [front, if_pos blank]

theorem front_bare {first : UInt8} (letter : isBlank first = false)
    (noQuote : Quote.ofByte? first = none) (rest : Bytes) :
    front first rest =
      (bare (first :: rest.takeWhile (!isBlank ·)), rest.dropWhile (!isBlank ·)) := by
  simp [front, letter, noQuote]

theorem front_quoted {first mark : UInt8} {quote : Quote} {rest after : Bytes}
    (isQuote : Quote.ofByte? first = some quote)
    (closes : rest.dropWhile (· != first) = mark :: after) :
    front first rest = (quoted quote (rest.takeWhile (· != first)), after) := by
  simp [front, isBlank_of_ofByte? isQuote, isQuote, closes]

theorem front_unclosed {first : UInt8} {quote : Quote} {rest : Bytes}
    (isQuote : Quote.ofByte? first = some quote)
    (unmatched : rest.dropWhile (· != first) = []) :
    front first rest = (unclosed quote rest, []) := by
  simp [front, isBlank_of_ofByte? isQuote, isQuote, unmatched]

end Segment

/-! ## All segments -/

/-- Whether every quotation in a raw query is closed. -/
def IsClosed (raw : Bytes) : Prop := ∀ segment ∈ segments raw, segment.isUnclosed = false

theorem segments_cons (first : UInt8) (rest : Bytes) :
    segments (first :: rest) =
      (Segment.front first rest).1 :: segments (Segment.front first rest).2 := by
  rw [segments]

/-- Whether all bytes are space, tab, carriage return or line feed. -/
def AreBlank (bytes : Bytes) : Prop := ∀ byte ∈ bytes, Segment.isBlank byte = true

theorem segments_blanks {blanks : Bytes} (blank : AreBlank blanks) (rest : Bytes) :
    segments (blanks ++ rest) = blanks.map Segment.blank ++ segments rest := by
  induction blanks with
  | nil => rfl
  | cons first blanks induction =>
      have here : Segment.isBlank first = true := blank first List.mem_cons_self
      have later : AreBlank blanks := fun byte member => blank byte (List.mem_cons_of_mem first member)
      rw [List.cons_append, segments_cons, Segment.front_blank here, induction later]
      rfl

theorem segments_bare {text rest : Bytes} (filled : text ≠ [])
    (unbroken : ∀ byte ∈ text, Segment.isBlank byte = false)
    (unquoted : ∀ quote : Quote, text.head? ≠ some quote.byte)
    (ended : ∀ byte ∈ rest.head?, Segment.isBlank byte = true) :
    segments (text ++ rest) = Segment.bare text :: segments rest := by
  obtain ⟨first, later, rfl⟩ := List.exists_cons_of_ne_nil filled
  have letter : Segment.isBlank first = false := unbroken first List.mem_cons_self
  have noQuote : Quote.ofByte? first = none := by
    apply Quote.ofByte?_eq_none
    intro quote same
    exact unquoted quote (congrArg some same)
  have inside : ∀ byte ∈ later, (!Segment.isBlank byte) = true := by
    intro byte member
    rw [unbroken byte (List.mem_cons_of_mem first member)]
    rfl
  have stopped : rest.takeWhile (!Segment.isBlank ·) = [] ∧
      rest.dropWhile (!Segment.isBlank ·) = rest := by
    cases rest with
    | nil => exact ⟨rfl, rfl⟩
    | cons byte rest => simp [ended byte rfl]
  rw [List.cons_append, segments_cons, Segment.front_bare letter noQuote,
    List.takeWhile_append_of_pos inside, List.dropWhile_append_of_pos inside, stopped.1, stopped.2,
    List.append_nil]

private theorem not_mark {quote : Quote} {text : Bytes} (unmarked : quote.byte ∉ text) :
    ∀ byte ∈ text, (byte != quote.byte) = true := by
  intro byte member
  apply bne_iff_ne.mpr
  rintro rfl
  exact unmarked member

theorem segments_quoted {quote : Quote} {text : Bytes} (unmarked : quote.byte ∉ text)
    (rest : Bytes) :
    segments (quote.byte :: (text ++ quote.byte :: rest)) =
      Segment.quoted quote text :: segments rest := by
  have closes : (text ++ quote.byte :: rest).dropWhile (· != quote.byte) = quote.byte :: rest := by
    rw [List.dropWhile_append_of_pos (not_mark unmarked)]
    simp
  have inside : (text ++ quote.byte :: rest).takeWhile (· != quote.byte) = text := by
    rw [List.takeWhile_append_of_pos (not_mark unmarked)]
    simp
  rw [segments_cons, Segment.front_quoted (Quote.ofByte?_byte quote) closes, inside]

theorem segments_unclosed {quote : Quote} {text : Bytes} (unmarked : quote.byte ∉ text) :
    segments (quote.byte :: text) = [Segment.unclosed quote text] := by
  have unmatched : text.dropWhile (· != quote.byte) = [] := by
    rw [← List.append_nil text, List.dropWhile_append_of_pos (not_mark unmarked)]
    rfl
  rw [segments_cons, Segment.front_unclosed (Quote.ofByte?_byte quote) unmatched, segments]

/-! ## What stands in front -/

/-- What is cut off the front of a raw query, and what is left behind it. -/
inductive IsFront : Bytes → Segment → Bytes → Prop where
  /-- One blank. -/
  | blank {byte : UInt8} {behind : Bytes} (stops : Segment.isBlank byte = true) :
      IsFront (byte :: behind) (.blank byte) behind
  /-- A word that does not start with a quotation mark, up to a blank or the end. -/
  | bare {text behind : Bytes} (filled : text ≠ [])
      (unbroken : ∀ byte ∈ text, Segment.isBlank byte = false)
      (unquoted : ∀ quote : Quote, text.head? ≠ some quote.byte)
      (ended : ∀ byte ∈ behind.head?, Segment.isBlank byte = true) :
      IsFront (text ++ behind) (.bare text) behind
  /-- A quotation up to the next mark like its own. -/
  | quoted {quote : Quote} {text behind : Bytes} (unmarked : quote.byte ∉ text) :
      IsFront (quote.byte :: (text ++ quote.byte :: behind)) (.quoted quote text) behind
  /-- A quotation that no mark closes. -/
  | unclosed {quote : Quote} {text : Bytes} (unmarked : quote.byte ∉ text) :
      IsFront (quote.byte :: text) (.unclosed quote text) []

theorem isFront_front (first : UInt8) (rest : Bytes) :
    IsFront (first :: rest) (Segment.front first rest).1 (Segment.front first rest).2 := by
  cases isBlank : Segment.isBlank first with
  | true =>
      rw [Segment.front_blank isBlank]
      exact .blank isBlank
  | false =>
      cases isQuote : Quote.ofByte? first with
      | none =>
          have parts := List.takeWhile_append_dropWhile (p := (!Segment.isBlank ·)) (l := rest)
          have stops := List.head?_dropWhile_not (!Segment.isBlank ·) rest
          rw [Segment.front_bare isBlank isQuote]
          conv => arg 1; rw [← parts, ← List.cons_append]
          refine .bare (List.cons_ne_nil first _) ?_ ?_ ?_
          · intro byte member
            rcases List.mem_cons.mp member with rfl | inside
            · exact isBlank
            · simpa using of_mem_takeWhile inside
          · intro quote same
            rw [Option.some.inj same, Quote.ofByte?_byte] at isQuote
            cases isQuote
          · intro byte starts
            rw [Option.mem_def.mp starts] at stops
            simpa using stops
      | some quote =>
          obtain rfl := Quote.byte_of_ofByte? isQuote
          cases behind : rest.dropWhile (· != quote.byte) with
          | nil =>
              rw [Segment.front_unclosed isQuote behind]
              exact .unclosed fun member => by simpa using of_dropWhile_eq_nil behind member
          | cons mark after =>
              have parts := List.takeWhile_append_dropWhile (p := (· != quote.byte)) (l := rest)
              have closes : mark = quote.byte := by
                have stopped := List.head?_dropWhile_not (· != quote.byte) rest
                simpa [behind] using stopped
              rw [Segment.front_quoted isQuote behind]
              conv => arg 1; rw [← parts, behind, closes]
              exact .quoted fun member => by simpa using of_mem_takeWhile member

namespace IsFront

variable {raw behind : Bytes} {segment : Segment}

theorem segments_eq (cut : IsFront raw segment behind) :
    segments raw = segment :: segments behind := by
  cases cut with
  | blank stops => rw [segments_cons, Segment.front_blank stops]
  | bare filled unbroken unquoted ended => exact segments_bare filled unbroken unquoted ended
  | quoted unmarked => exact segments_quoted unmarked behind
  | unclosed unmarked => rw [segments_unclosed unmarked, segments]

theorem source_append (cut : IsFront raw segment behind) : segment.source ++ behind = raw := by
  cases cut <;> simp [Segment.source]

/-- A closed segment is cut off as well when what is left behind it ends earlier. -/
theorem shorten {front back : Bytes} (cut : IsFront raw segment (front ++ back))
    (closed : segment.isUnclosed = false) : IsFront (segment.source ++ front) segment front := by
  generalize left : front ++ back = behind at cut
  cases cut with
  | blank stops => exact .blank stops
  | bare filled unbroken unquoted ended =>
      refine .bare filled unbroken unquoted fun byte starts => ended byte ?_
      rw [← left, List.head?_append, Option.mem_def.mp starts]
      rfl
  | @quoted quote text _ unmarked =>
      have written : (Segment.quoted quote text).source ++ front =
          quote.byte :: (text ++ quote.byte :: front) := by
        simp [Segment.source]
      rw [written]
      exact .quoted unmarked
  | unclosed => cases closed

/-- A closed segment is cut off as well when a blank and anything else stand behind the query. -/
theorem append_blank (cut : IsFront raw segment behind) (closed : segment.isUnclosed = false)
    {blank : UInt8} (stops : Segment.isBlank blank = true) (back : Bytes) :
    IsFront (raw ++ blank :: back) segment (behind ++ blank :: back) := by
  cases cut with
  | blank here => exact .blank here
  | bare filled unbroken unquoted ended =>
      rw [List.append_assoc]
      refine .bare filled unbroken unquoted fun byte starts => ?_
      rw [List.head?_append, Option.mem_def, Option.or_eq_some_iff] at starts
      rcases starts with behind | ⟨-, here⟩
      · exact ended byte behind
      · obtain rfl := Option.some.inj here
        exact stops
  | quoted unmarked =>
      rw [List.cons_append, List.append_assoc, List.cons_append]
      exact .quoted unmarked
  | unclosed => cases closed

theorem areBlank_source_iff (cut : IsFront raw segment behind) :
    AreBlank segment.source ↔ segment.token? = none := by
  cases cut with
  | blank stops => simp [AreBlank, Segment.source, Segment.token?, stops]
  | @bare text _ filled unbroken _ _ =>
      obtain ⟨first, later, rfl⟩ := List.exists_cons_of_ne_nil filled
      simp [AreBlank, Segment.source, Segment.token?, unbroken first List.mem_cons_self]
  | quoted => simp [AreBlank, Segment.source, Segment.token?]
  | unclosed => simp [AreBlank, Segment.source, Segment.token?]

end IsFront

/-- A blank behind closed quotations cuts the segments in two. -/
theorem segments_append_blank {front : Bytes} (closed : IsClosed front) {blank : UInt8}
    (stops : Segment.isBlank blank = true) (back : Bytes) :
    segments (front ++ blank :: back) =
      segments front ++ Segment.blank blank :: segments back := by
  rw [IsClosed] at closed
  fun_induction segments front with
  | case1 => rw [List.nil_append, segments_cons, Segment.front_blank stops, List.nil_append]
  | case2 first rest induction =>
      have cut := (isFront_front first rest).append_blank (closed _ List.mem_cons_self) stops back
      have later := induction fun segment member => closed segment (List.mem_cons_of_mem _ member)
      rw [cut.segments_eq, later, List.cons_append]

theorem isClosed_blanks {blanks rest : Bytes} (blank : AreBlank blanks) (closed : IsClosed rest) :
    IsClosed (blanks ++ rest) := by
  intro segment member
  rw [segments_blanks blank, List.mem_append, List.mem_map] at member
  rcases member with ⟨byte, -, rfl⟩ | behind
  · rfl
  · exact closed segment behind

theorem isClosed_append_blank {front back : Bytes} (frontClosed : IsClosed front)
    (backClosed : IsClosed back) {blank : UInt8} (stops : Segment.isBlank blank = true) :
    IsClosed (front ++ blank :: back) := by
  intro segment member
  rw [segments_append_blank frontClosed stops, List.mem_append, List.mem_cons] at member
  rcases member with inFront | rfl | inBack
  · exact frontClosed segment inFront
  · rfl
  · exact backClosed segment inBack

/-! ## Tokens -/

theorem unclosedFrom_eq_none_iff (position : Nat) (list : List Segment) :
    unclosedFrom position list = none ↔ ∀ segment ∈ list, segment.isUnclosed = false := by
  induction list generalizing position with
  | nil => simp [unclosedFrom]
  | cons segment later induction =>
      cases open_ : segment.isUnclosed <;> simp [unclosedFrom, open_, induction]

/-- A query is split strictly when its quotations are closed, and then as it is split tolerantly. -/
theorem tokenize_strict_eq_ok_iff {raw : Bytes} {tokens : List Token} :
    tokenize false raw = .ok tokens ↔
      IsClosed raw ∧ (segments raw).filterMap Segment.token? = tokens := by
  simp only [tokenize, IsClosed, ← unclosedFrom_eq_none_iff 0]
  cases unclosedFrom 0 (segments raw) <;> simp

namespace Query

theorem tokens_parse (raw : Bytes) :
    (parse raw).tokens = ((segments raw).filterMap Segment.token?).map Token.normalize := by
  rfl

theorem tokens_parse_append_blank {front : Bytes} (closed : IsClosed front) {blank : UInt8}
    (stops : Segment.isBlank blank = true) (back : Bytes) :
    (parse (front ++ blank :: back)).tokens = (parse front).tokens ++ (parse back).tokens := by
  rw [tokens_parse, tokens_parse, tokens_parse, segments_append_blank closed stops,
    List.filterMap_append, List.filterMap_cons_none rfl, List.map_append]

end Query
end NameSearch
