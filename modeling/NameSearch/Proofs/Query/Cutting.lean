import NameSearch.Proofs.Bytes.Characters
import NameSearch.Proofs.Query.Spelling

/-!
# Cutting a raw query by positions

A raw query can be split in a loop over the positions of its bytes, which cuts the text of each token
out of the query between two of them.  The loop is written out here with a cut that fails where its
ends are out of order, behind the query or inside a character.  No cut fails: the blanks and
quotation marks that the loop stops at are ASCII, and bytes of ASCII stand between characters only.
So the loop splits as the segments do, and each of its turns leads further.
-/

namespace NameSearch

open Bytes

/-! ## The loop -/

/-- A part of a text, from one position in its bytes up to another. -/
structure Span where
  /-- The position of the first byte. -/
  start : Nat
  /-- The position behind the last byte. -/
  stop : Nat
  deriving DecidableEq

/-- Whether a text can be cut at both ends of a span: they are in order, and each of them stands
between two characters of the text or at an end of it. -/
def Span.IsOf (span : Span) (raw : String) : Prop :=
  span.start ≤ span.stop ∧ (String.Pos.Raw.mk span.start).IsValid raw ∧
    (String.Pos.Raw.mk span.stop).IsValid raw

instance (span : Span) (raw : String) : Decidable (span.IsOf raw) :=
  inferInstanceAs (Decidable (_ ∧ _ ∧ _))

/-- Why the loop ends before the raw query does. -/
inductive Halt where
  /-- A quotation is never closed, and that is not tolerated. -/
  | refused (unclosed : UnclosedQuote)
  /-- A text is cut where it cannot be. -/
  | miscut (span : Span)
  deriving DecidableEq

/-- The bytes of a text in a span. -/
def Span.cut (span : Span) (raw : String) : Except Halt Bytes :=
  if span.IsOf raw then .ok ((ofString raw).extract span.start span.stop)
  else .error (.miscut span)

/-- One turn of the loop. -/
structure Turn where
  /-- The position it starts at. -/
  position : Nat
  /-- What it cuts out, and the quotation mark of that; nothing where it passes a blank. -/
  taken : Option (Span × Option Quote)
  /-- The position that the loop goes on at. -/
  next : Nat
  deriving DecidableEq

namespace Turn

/-- The position of the next blank, or the end. -/
def wordEnd (bytes : Bytes) (position : Nat) : Nat :=
  position + ((bytes.drop position).takeWhile (!Segment.isBlank ·)).length

/-- What the loop does at a position in front of the end. -/
def plan (tolerant : Bool) (bytes : Bytes) (position : Nat) (inside : position < bytes.length) :
    Except UnclosedQuote Turn :=
  let first := bytes[position]
  if Segment.isBlank first then .ok ⟨position, none, position + 1⟩
  else
    match Quote.ofByte? first with
    | none =>
      .ok ⟨position, some (⟨position, wordEnd bytes position⟩, none), wordEnd bytes position⟩
    | some quote =>
      match (bytes.drop (position + 1)).findIdx? (· == first) with
      | some length =>
        .ok ⟨position, some (⟨position + 1, position + 1 + length⟩, some quote),
          position + 1 + length + 1⟩
      | none =>
        if tolerant then
          .ok ⟨position, some (⟨position + 1, bytes.length⟩, some quote), bytes.length⟩
        else .error ⟨position⟩

/-- The token that a turn cuts out. -/
def token? (turn : Turn) (raw : String) : Except Halt (Option Token) :=
  match turn.taken with
  | none => .ok none
  | some (span, quote) => (span.cut raw).map fun text => some ⟨text, quote⟩

theorem lt_wordEnd {bytes : Bytes} {position : Nat} (inside : position < bytes.length)
    (letter : Segment.isBlank bytes[position] = false) : position < wordEnd bytes position := by
  rw [wordEnd, List.drop_eq_getElem_cons inside, List.takeWhile_cons, letter]
  simp

theorem position_lt_next {tolerant : Bool} {bytes : Bytes} {position : Nat}
    {inside : position < bytes.length} {turn : Turn}
    (planned : plan tolerant bytes position inside = .ok turn) : position < turn.next := by
  rw [plan] at planned
  split at planned
  · obtain rfl := Except.ok.inj planned
    exact Nat.lt_succ_self position
  · next letter =>
      split at planned
      · obtain rfl := Except.ok.inj planned
        exact lt_wordEnd inside (by simpa using letter)
      · split at planned
        · obtain rfl := Except.ok.inj planned
          dsimp only
          omega
        · split at planned
          · obtain rfl := Except.ok.inj planned
            exact inside
          · cases planned

end Turn

/-- The turns of the loop from a position on, and the tokens it cuts out unless it ends before. -/
def cutFrom (tolerant : Bool) (raw : String) (position : Nat) :
    List Turn × Except Halt (List Token) :=
  if inside : position < (ofString raw).length then
    match planned : Turn.plan tolerant (ofString raw) position inside with
    | .error unclosed => ([], .error (.refused unclosed))
    | .ok turn =>
      match turn.token? raw with
      | .error halt => ([turn], .error halt)
      | .ok token? =>
        have := Turn.position_lt_next planned
        let rest := cutFrom tolerant raw turn.next
        (turn :: rest.1, rest.2.map (token?.toList ++ ·))
  else ([], .ok [])
termination_by (ofString raw).length - position

section Equations

variable {tolerant : Bool} {raw : String} {position : Nat}

theorem cutFrom_end (ended : (ofString raw).length ≤ position) :
    cutFrom tolerant raw position = ([], .ok []) := by
  rw [cutFrom, dif_neg (Nat.not_lt.mpr ended)]

theorem cutFrom_refused {inside : position < (ofString raw).length} {unclosed : UnclosedQuote}
    (refused : Turn.plan tolerant (ofString raw) position inside = .error unclosed) :
    cutFrom tolerant raw position = ([], .error (.refused unclosed)) := by
  rw [cutFrom, dif_pos inside]
  split
  · next other same =>
      rw [refused] at same
      cases same
      rfl
  · next turn planned =>
      rw [refused] at planned
      cases planned

theorem cutFrom_turn {inside : position < (ofString raw).length} {turn : Turn}
    (planned : Turn.plan tolerant (ofString raw) position inside = .ok turn)
    {token? : Option Token} (cut : turn.token? raw = .ok token?) :
    cutFrom tolerant raw position =
      let rest := cutFrom tolerant raw turn.next
      (turn :: rest.1, rest.2.map (token?.toList ++ ·)) := by
  rw [cutFrom, dif_pos inside]
  split
  · next other refused =>
      rw [planned] at refused
      cases refused
  · next other same =>
      rw [planned] at same
      cases same
      rw [cut]

end Equations

/-! ## Turns and segments -/

/-- The part of a raw query that the text of a segment is cut out of when the segment starts at
`position`, and the quotation mark of that. -/
def Segment.placed (position : Nat) : Segment → Option (Span × Option Quote)
  | .blank _ => none
  | .bare text => some (⟨position, position + text.length⟩, none)
  | .quoted quote text | .unclosed quote text =>
    some (⟨position + 1, position + 1 + text.length⟩, some quote)

theorem Segment.length_source_quoted (quote : Quote) (text : Bytes) :
    (quoted quote text).source.length = 1 + text.length + 1 := by
  rw [source, List.length_append, List.length_cons, List.length_singleton, Nat.add_comm 1]

theorem Segment.length_source_unclosed (quote : Quote) (text : Bytes) :
    (unclosed quote text).source.length = 1 + text.length := by
  rw [source, List.length_cons, Nat.add_comm 1]

theorem findIdx?_of_dropWhile_eq_cons {first mark : UInt8} {rest after : Bytes}
    (closes : rest.dropWhile (· != first) = mark :: after) :
    rest.findIdx? (· == first) = some (rest.takeWhile (· != first)).length := by
  induction rest with
  | nil => cases closes
  | cons byte rest induction =>
      rw [List.findIdx?_cons]
      by_cases same : byte = first
      · simp [same]
      · have differs : (byte != first) = true := bne_iff_ne.mpr same
        rw [List.dropWhile_cons, if_pos differs] at closes
        rw [List.takeWhile_cons, differs, induction closes, beq_false_of_ne same]
        rfl

theorem findIdx?_of_dropWhile_eq_nil {first : UInt8} {rest : Bytes}
    (unmatched : rest.dropWhile (· != first) = []) : rest.findIdx? (· == first) = none := by
  rw [List.findIdx?_eq_none_iff]
  intro byte member
  simpa using of_dropWhile_eq_nil unmatched member

/-- A turn takes what the segment at its position holds, and leads behind that segment. -/
theorem Turn.plan_eq {tolerant : Bool} {bytes rest : Bytes} {position : Nat} {first : UInt8}
    {segment : Segment} (inside : position < bytes.length)
    (behind : bytes.drop position = first :: rest) (front : (Segment.front first rest).1 = segment) :
    plan tolerant bytes position inside =
      if !tolerant && segment.isUnclosed then .error ⟨position⟩
      else .ok ⟨position, segment.placed position, position + segment.source.length⟩ := by
  subst front
  obtain ⟨isFirst, isRest⟩ : bytes[position] = first ∧ bytes.drop (position + 1) = rest :=
    List.cons.inj ((List.drop_eq_getElem_cons inside).symm.trans behind)
  have size : bytes.length = position + 1 + rest.length := by
    rw [← isRest, List.length_drop]
    omega
  rw [plan, isFirst]
  cases blank : Segment.isBlank first with
  | true =>
      simp [Segment.front_blank blank, Segment.isUnclosed, Segment.placed, Segment.source]
  | false =>
      cases isQuote : Quote.ofByte? first with
      | none =>
          have stop : wordEnd bytes position =
              position + (first :: rest.takeWhile (!Segment.isBlank ·)).length := by
            rw [wordEnd, behind, List.takeWhile_cons, blank]
            rfl
          simp [Segment.front_bare blank isQuote, Segment.isUnclosed, Segment.placed,
            Segment.source, stop]
      | some quote =>
          cases closes : rest.dropWhile (· != first) with
          | nil =>
              simp only [Segment.front_unclosed isQuote closes, Segment.placed, isRest,
                findIdx?_of_dropWhile_eq_nil closes, Segment.length_source_unclosed,
                ← Nat.add_assoc, ← size]
              cases tolerant <;> rfl
          | cons mark after =>
              simp only [Segment.front_quoted isQuote closes, Segment.placed, isRest,
                findIdx?_of_dropWhile_eq_cons closes, Segment.length_source_quoted,
                ← Nat.add_assoc]
              simp [Segment.isUnclosed]

/-! ## Positions between characters -/

/-- A position between two characters of a text or at an end of it, and the bytes behind it. -/
def IsCutAt (raw : String) (position : Nat) (behind : Bytes) : Prop :=
  ∃ front back : List Char, raw.toList = front ++ back ∧ position = (ofChars front).length ∧
    behind = ofChars back

theorem isCutAt_zero (raw : String) : IsCutAt raw 0 (ofString raw) :=
  ⟨[], raw.toList, rfl, rfl, ofString_eq_ofChars raw⟩

namespace IsCutAt

variable {raw : String} {position : Nat} {text behind : Bytes}

theorem isValid (cut : IsCutAt raw position behind) :
    (String.Pos.Raw.mk position).IsValid raw := by
  obtain ⟨front, back, whole, rfl, -⟩ := cut
  exact isValid_length_ofChars whole

theorem exists_front (cut : IsCutAt raw position behind) :
    ∃ front : Bytes, ofString raw = front ++ behind ∧ position = front.length := by
  obtain ⟨front, back, whole, rfl, rfl⟩ := cut
  exact ⟨ofChars front, by rw [ofString_eq_ofChars, whole, ofChars_append], rfl⟩

theorem drop_eq (cut : IsCutAt raw position behind) : (ofString raw).drop position = behind := by
  obtain ⟨front, whole, rfl⟩ := cut.exists_front
  rw [whole, List.drop_left]

theorem length_eq (cut : IsCutAt raw position behind) :
    (ofString raw).length = position + behind.length := by
  obtain ⟨front, whole, rfl⟩ := cut.exists_front
  rw [whole, List.length_append]

/-- Behind a text that leads to a byte that may start a character, or to the end, there is a cut. -/
theorem behind_text (cut : IsCutAt raw position (text ++ behind))
    (first : ∀ byte, behind.head? = some byte → byte.IsUTF8FirstByte) :
    IsCutAt raw (position + text.length) behind := by
  obtain ⟨front, back, whole, rfl, bytes⟩ := cut
  obtain ⟨covered, later, rfl, rfl, rfl⟩ := exists_cut_of_first bytes.symm first
  refine ⟨front ++ covered, later, ?_, ?_, rfl⟩
  · rw [whole, List.append_assoc]
  · rw [ofChars_append, List.length_append]

theorem behind_ascii {byte : UInt8} (cut : IsCutAt raw position (byte :: behind))
    (ascii : byte.toNat < 128) : IsCutAt raw (position + 1) behind := by
  refine @behind_text raw position [byte] behind cut fun next starts => ?_
  obtain ⟨front, back, whole, -, bytes⟩ := cut
  cases back with
  | nil => cases bytes
  | cons character later =>
      obtain ⟨first, rest, encoded⟩ :=
        List.exists_cons_of_ne_nil (String.utf8EncodeChar_ne_nil (c := character))
      rw [ofChars_cons, encoded, List.cons_append] at bytes
      obtain ⟨rfl, rfl⟩ := List.cons.inj bytes
      have value : character.val.toNat = byte.toNat :=
        val_eq_of_mem_utf8EncodeChar ascii (encoded ▸ List.mem_cons_self)
      rw [utf8EncodeChar_of_ascii (value ▸ ascii)] at encoded
      obtain ⟨-, rfl⟩ := List.cons.inj encoded
      exact isUTF8FirstByte_of_head? starts

theorem exists_text (starts : IsCutAt raw position (text ++ behind))
    (stops : IsCutAt raw (position + text.length) behind) : ∃ part : String, text = ofString part := by
  obtain ⟨-, back, -, -, bytes⟩ := starts
  obtain ⟨-, later, -, -, rfl⟩ := stops
  obtain ⟨covered, -, -, rfl, -⟩ :=
    exists_cut_of_first bytes.symm fun byte head => isUTF8FirstByte_of_head? head
  exact ⟨String.ofList covered, by rw [ofString_eq_ofChars, String.toList_ofList]⟩

theorem cut_span (starts : IsCutAt raw position (text ++ behind))
    (stops : IsCutAt raw (position + text.length) behind) :
    (Span.mk position (position + text.length)).cut raw = .ok text := by
  have isOf : (Span.mk position (position + text.length)).IsOf raw :=
    ⟨Nat.le_add_right position text.length, starts.isValid, stops.isValid⟩
  rw [Span.cut, if_pos isOf, List.extract_eq_take_drop, starts.drop_eq, Nat.add_sub_cancel_left,
    List.take_left]

end IsCutAt

theorem Segment.toNat_lt_of_isBlank {byte : UInt8} (blank : isBlank byte = true) :
    byte.toNat < 128 := by
  simp only [isBlank, Byte.isLineEnd, Bool.or_eq_true, beq_iff_eq] at blank
  rcases blank with (rfl | rfl) | rfl | rfl <;> decide

theorem Quote.toNat_byte_lt (quote : Quote) : quote.byte.toNat < 128 := by
  cases quote <;> decide

/-! ## Turns at characters -/

/-- What the text of a segment is cut out of when the segment starts at `position`. -/
inductive IsPlaced (raw : String) (position : Nat) (segment : Segment) : Prop where
  /-- A blank holds no text. -/
  | blank (nothing : segment.placed position = none) (noToken : segment.token? = none)
  /-- The text stands between two cuts. -/
  | text {start : Nat} {text after : Bytes} {quote : Option Quote}
      (placed : segment.placed position = some (⟨start, start + text.length⟩, quote))
      (token : segment.token? = some ⟨text, quote⟩) (starts : IsCutAt raw start (text ++ after))
      (stops : IsCutAt raw (start + text.length) after)

namespace IsFront

variable {raw : String} {position : Nat} {whole behind : Bytes} {segment : Segment}

/-- A segment that starts at a cut ends at one, and so does the text in it. -/
theorem isCutAt_behind (front : IsFront whole segment behind) (cut : IsCutAt raw position whole) :
    IsCutAt raw (position + segment.source.length) behind ∧ IsPlaced raw position segment := by
  cases front with
  | blank stops => exact ⟨cut.behind_ascii (Segment.toNat_lt_of_isBlank stops), .blank rfl rfl⟩
  | bare filled unbroken unquoted ended =>
      have beyond := cut.behind_text fun byte starts =>
        isUTF8FirstByte_of_ascii (Segment.toNat_lt_of_isBlank (ended byte starts))
      exact ⟨beyond, .text rfl rfl cut beyond⟩
  | @quoted quote text _ unmarked =>
      have inside := cut.behind_ascii quote.toNat_byte_lt
      have beyond := inside.behind_text fun byte starts => by
        obtain rfl := Option.some.inj starts
        exact isUTF8FirstByte_of_ascii quote.toNat_byte_lt
      refine ⟨?_, .text rfl rfl inside beyond⟩
      rw [Segment.length_source_quoted, ← Nat.add_assoc, ← Nat.add_assoc]
      exact beyond.behind_ascii quote.toNat_byte_lt
  | @unclosed quote text unmarked =>
      have inside := cut.behind_ascii quote.toNat_byte_lt
      rw [← List.append_nil text] at inside
      have beyond := inside.behind_text fun byte starts => nomatch starts
      refine ⟨?_, .text rfl rfl inside beyond⟩
      rwa [Segment.length_source_unclosed, ← Nat.add_assoc]

end IsFront

namespace IsPlaced

variable {raw : String} {position : Nat} {segment : Segment}

theorem token?_eq (placed : IsPlaced raw position segment) (next : Nat) :
    Turn.token? ⟨position, segment.placed position, next⟩ raw = .ok segment.token? := by
  cases placed with
  | blank nothing noToken => rw [Turn.token?, nothing, noToken]
  | text placed token starts stops =>
      simp only [Turn.token?, placed, token, starts.cut_span stops]
      rfl

theorem isOf_span (placed : IsPlaced raw position segment) {span : Span} {quote : Option Quote}
    (taken : segment.placed position = some (span, quote)) :
    span.IsOf raw ∧ span.stop ≤ raw.utf8ByteSize := by
  cases placed with
  | blank nothing => rw [nothing] at taken; cases taken
  | @text start text after mark placed token starts stops =>
      rw [placed] at taken
      obtain ⟨rfl, -⟩ := Prod.mk.inj (Option.some.inj taken)
      refine ⟨⟨Nat.le_add_right start text.length, starts.isValid, stops.isValid⟩, ?_⟩
      rw [← length_ofString, stops.length_eq]
      exact Nat.le_add_right _ _

theorem exists_text (placed : IsPlaced raw position segment) {token : Token}
    (held : segment.token? = some token) : ∃ text : String, token.text = ofString text := by
  cases placed with
  | blank _ noToken => rw [noToken] at held; cases held
  | text _ token starts stops =>
      rw [token] at held
      obtain rfl := Option.some.inj held
      exact starts.exists_text stops

end IsPlaced

/-! ## The whole loop -/

/-- Each turn starts where the one before it leads, the first of them at `position`. -/
def FollowFrom : (position : Nat) → List Turn → Prop
  | _, [] => True
  | position, turn :: later => turn.position = position ∧ FollowFrom turn.next later

/-- What splitting comes to from a position on, when some segments are still to come. -/
def outcomeFrom (tolerant : Bool) (position : Nat) (list : List Segment) :
    Except Halt (List Token) :=
  match tolerant, unclosedFrom position list with
  | false, some unclosed => .error (.refused unclosed)
  | _, _ => .ok (list.filterMap Segment.token?)

theorem mapError_tokenize (tolerant : Bool) (raw : Bytes) :
    (tokenize tolerant raw).mapError Halt.refused = outcomeFrom tolerant 0 (segments raw) := by
  cases tolerant with
  | true => rfl
  | false =>
      simp only [tokenize, outcomeFrom]
      cases unclosedFrom 0 (segments raw) <;> rfl

theorem outcomeFrom_cons (tolerant : Bool) (position : Nat) (segment : Segment)
    (later : List Segment) :
    outcomeFrom tolerant position (segment :: later) =
      if !tolerant && segment.isUnclosed then .error (.refused ⟨position⟩)
      else (outcomeFrom tolerant (position + segment.source.length) later).map
        (segment.token?.toList ++ ·) := by
  have tokens : (segment :: later).filterMap Segment.token? =
      segment.token?.toList ++ later.filterMap Segment.token? := by
    rw [List.filterMap_cons]
    cases segment.token? <;> rfl
  cases tolerant with
  | true =>
      simp only [outcomeFrom, tokens]
      rfl
  | false =>
      simp only [outcomeFrom, unclosedFrom, tokens]
      cases segment.isUnclosed with
      | true => rfl
      | false => cases unclosedFrom (position + segment.source.length) later <;> rfl

/-- Whether a turn leads further within a text and cuts it between characters. -/
structure Turn.IsWithin (turn : Turn) (raw : String) : Prop where
  /-- It leads to a later position. -/
  leads : turn.position < turn.next
  /-- That position is not behind the end. -/
  next_le : turn.next ≤ raw.utf8ByteSize
  /-- What it cuts out can be cut out. -/
  isOf : ∀ span quote, turn.taken = some (span, quote) →
    span.IsOf raw ∧ span.stop ≤ raw.utf8ByteSize

/-- From a cut on, the loop splits as the segments do, and every turn of it is within the text. -/
theorem cutFrom_eq (tolerant : Bool) {raw : String} {position : Nat} {whole : Bytes}
    (cut : IsCutAt raw position whole) :
    (cutFrom tolerant raw position).2 = outcomeFrom tolerant position (segments whole) ∧
      FollowFrom position (cutFrom tolerant raw position).1 ∧
      ∀ turn ∈ (cutFrom tolerant raw position).1, turn.IsWithin raw := by
  fun_induction segments whole generalizing position with
  | case1 =>
      have ended : (ofString raw).length ≤ position := Nat.le_of_eq cut.length_eq
      rw [cutFrom_end ended]
      refine ⟨?_, trivial, List.forall_mem_nil _⟩
      cases tolerant <;> rfl
  | case2 first rest induction =>
      have inside : position < (ofString raw).length := by
        rw [cut.length_eq, List.length_cons]
        omega
      obtain ⟨beyond, placed⟩ := (isFront_front first rest).isCutAt_behind cut
      have planned : Turn.plan tolerant (ofString raw) position inside = _ :=
        Turn.plan_eq inside cut.drop_eq rfl
      generalize (Segment.front first rest).1 = segment at *
      generalize (Segment.front first rest).2 = behind at *
      rw [outcomeFrom_cons]
      cases refused : !tolerant && segment.isUnclosed with
      | true =>
          rw [refused, if_pos rfl] at planned
          rw [cutFrom_refused planned, if_pos rfl]
          exact ⟨rfl, trivial, List.forall_mem_nil _⟩
      | false =>
          rw [refused, if_neg Bool.false_ne_true] at planned
          rw [cutFrom_turn planned (placed.token?_eq _), if_neg Bool.false_ne_true]
          obtain ⟨outcome, follow, within⟩ := induction beyond
          refine ⟨?_, ⟨rfl, follow⟩, List.forall_mem_cons.mpr ⟨?_, within⟩⟩
          · dsimp only
            rw [outcome]
          · refine ⟨Turn.position_lt_next planned, ?_, fun span quote taken => placed.isOf_span taken⟩
            rw [← length_ofString, beyond.length_eq]
            exact Nat.le_add_right _ _

theorem exists_text_of_mem_segments {raw : String} {position : Nat} {whole : Bytes}
    (cut : IsCutAt raw position whole) :
    ∀ token ∈ (segments whole).filterMap Segment.token?,
      ∃ text : String, token.text = ofString text := by
  fun_induction segments whole generalizing position with
  | case1 => exact List.forall_mem_nil _
  | case2 first rest induction =>
      intro token member
      obtain ⟨beyond, placed⟩ := (isFront_front first rest).isCutAt_behind cut
      obtain ⟨segment, inside, held⟩ := List.mem_filterMap.mp member
      rcases List.mem_cons.mp inside with rfl | later
      · exact placed.exists_text held
      · exact induction beyond token (List.mem_filterMap.mpr ⟨segment, later, held⟩)

/-- The loop over the positions of a text splits it as `tokenize` does, and never miscuts it.  Each
turn starts where the one before it leads, which is further on and at most at the end of the text;
what a turn cuts out starts and stops between two characters; and so every token holds a text. -/
theorem cutFrom_between_characters (tolerant : Bool) (raw : String) :
    (cutFrom tolerant raw 0).2 = (tokenize tolerant (ofString raw)).mapError Halt.refused ∧
    FollowFrom 0 (cutFrom tolerant raw 0).1 ∧
    (∀ turn ∈ (cutFrom tolerant raw 0).1, turn.IsWithin raw) ∧
    ∀ tokens, tokenize tolerant (ofString raw) = .ok tokens →
      ∀ token ∈ tokens, ∃ text : String, token.text = ofString text := by
  obtain ⟨outcome, follow, within⟩ := cutFrom_eq tolerant (isCutAt_zero raw)
  refine ⟨outcome.trans (mapError_tokenize tolerant _).symm, follow, within, ?_⟩
  intro tokens split
  obtain ⟨-, rfl⟩ := tokenize_eq_ok_iff.mp split
  exact exists_text_of_mem_segments (isCutAt_zero raw)

/-- A word, a quotation and a quotation that is left open, each with a letter of two bytes in it. -/
theorem cutFrom_between_characters_foreign :
    let raw := "é 'ü b' \"Ω"
    let closed : List Turn :=
      [⟨0, some (⟨0, 2⟩, none), 2⟩, ⟨2, none, 3⟩, ⟨3, some (⟨4, 8⟩, some .single), 9⟩,
        ⟨9, none, 10⟩]
    let turns : List Turn := closed ++ [⟨10, some (⟨11, 13⟩, some .double), 13⟩]
    let tokens : List Token :=
      [⟨ofString "é", none⟩, ⟨ofString "ü b", some .single⟩, ⟨ofString "Ω", some .double⟩]
    cutFrom true raw 0 = (turns, .ok tokens) ∧
      cutFrom false raw 0 = (closed, .error (.refused ⟨10⟩)) ∧
      (∀ turn ∈ turns, turn.IsWithin raw) ∧
      ∀ token ∈ tokens, ∃ text : String, token.text = ofString text := by
  intro raw closed turns tokens
  have cut : (segments (ofString raw)).filterMap Segment.token? = tokens := by decide +kernel
  have split : tokenize true (ofString raw) = .ok tokens :=
    tokenize_eq_ok_iff.mpr ⟨.inl rfl, cut⟩
  have unclosed : unclosedFrom 0 (segments (ofString raw)) = some ⟨10⟩ := by decide +kernel
  have refused : tokenize false (ofString raw) = .error ⟨10⟩ := by
    simp only [tokenize, unclosed]
  have through : (cutFrom true raw 0).1 = turns := by decide +kernel
  have before : (cutFrom false raw 0).1 = closed := by decide +kernel
  obtain ⟨outcome, -, within, texts⟩ := cutFrom_between_characters true raw
  obtain ⟨halted, -⟩ := cutFrom_between_characters false raw
  rw [split] at outcome
  rw [refused] at halted
  rw [through] at within
  exact ⟨Prod.ext through outcome, Prod.ext before halted, within, texts tokens split⟩

end NameSearch
