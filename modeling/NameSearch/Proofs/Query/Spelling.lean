import NameSearch.Proofs.Query.Splitting

/-!
# Spellings of raw queries

A raw query is written as pieces with blanks in front of them, between them and behind them.  A
piece is a bare word, which only a blank or the end can end, or a quotation up to its closing mark,
which the next piece may touch; where that is tolerated, the last piece may be a quotation without
its closing mark.  A raw query is split into tokens exactly when it is spelled in this way, and it
is spelled in one way at most.
-/

namespace NameSearch

/-- A token as it is written, and the blanks behind it. -/
structure Piece where
  /-- The token. -/
  token : Token
  /-- What it is written as, with its quotation marks. -/
  written : Bytes
  /-- The blanks between it and the next piece or the end. -/
  blanks : Bytes
  deriving DecidableEq

/-- A raw query cut into pieces. -/
structure Spelling where
  /-- The blanks in front of the first piece. -/
  blanks : Bytes
  /-- The pieces in order. -/
  pieces : List Piece
  deriving DecidableEq

/-- How a piece is written when some pieces are behind it. -/
inductive IsPiece (tolerant : Bool) : List Piece → Piece → Prop where
  /-- A word that does not start with a quotation mark and goes up to a blank or the end. -/
  | bare {text blanks : Bytes} {behind : List Piece} (filled : text ≠ [])
      (unbroken : ∀ byte ∈ text, Segment.isBlank byte = false)
      (unquoted : ∀ quote : Quote, text.head? ≠ some quote.byte)
      (ended : blanks ≠ [] ∨ behind = []) :
      IsPiece tolerant behind ⟨Token.bare text, text, blanks⟩
  /-- A quotation that does not hold its own mark. -/
  | quoted {quote : Quote} {text blanks : Bytes} {behind : List Piece}
      (unmarked : quote.byte ∉ text) :
      IsPiece tolerant behind
        ⟨⟨text, some quote⟩, quote.byte :: (text ++ [quote.byte]), blanks⟩
  /-- A quotation that goes up to the end without its closing mark. -/
  | unclosed {quote : Quote} {text : Bytes} (tolerated : tolerant = true)
      (unmarked : quote.byte ∉ text) :
      IsPiece tolerant [] ⟨⟨text, some quote⟩, quote.byte :: text, []⟩

/-- Every piece is written as it may be in front of those behind it. -/
inductive ArePieces (tolerant : Bool) : List Piece → Prop where
  | nil : ArePieces tolerant []
  | cons {piece : Piece} {behind : List Piece} (here : IsPiece tolerant behind piece)
      (blank : AreBlank piece.blanks) (later : ArePieces tolerant behind) :
      ArePieces tolerant (piece :: behind)

/-- Some pieces, each with the blanks behind it, one after the other. -/
def spelled (pieces : List Piece) : Bytes :=
  pieces.flatMap fun piece => piece.written ++ piece.blanks

namespace Spelling

/-- The raw query that is spelled. -/
def raw (spelling : Spelling) : Bytes := spelling.blanks ++ spelled spelling.pieces

/-- The tokens of the pieces. -/
def tokens (spelling : Spelling) : List Token := spelling.pieces.map Piece.token

/-- A spelling of a raw query; an unclosed quotation at the end is let in if `tolerant`. -/
structure Spells (spelling : Spelling) (tolerant : Bool) (raw : Bytes) : Prop where
  /-- Only blanks stand in front of the pieces. -/
  blank : AreBlank spelling.blanks
  /-- The pieces are written as they may be. -/
  pieces : ArePieces tolerant spelling.pieces
  /-- Together they are the raw query. -/
  whole : spelling.raw = raw

end Spelling

/-! ## Pieces and segments -/

theorem IsPiece.written_eq_cons {tolerant : Bool} {behind : List Piece} {piece : Piece}
    (here : IsPiece tolerant behind piece) :
    ∃ first rest, piece.written = first :: rest ∧ Segment.isBlank first = false := by
  cases here with
  | @bare text _ _ filled unbroken _ _ =>
      obtain ⟨first, rest, rfl⟩ := List.exists_cons_of_ne_nil filled
      exact ⟨first, rest, rfl, unbroken first List.mem_cons_self⟩
  | quoted => exact ⟨_, _, rfl, Segment.isBlank_byte _⟩
  | unclosed => exact ⟨_, _, rfl, Segment.isBlank_byte _⟩

theorem IsPiece.segments_eq {tolerant : Bool} {behind : List Piece} {piece : Piece}
    (here : IsPiece tolerant behind piece) (blank : AreBlank piece.blanks) :
    ∃ segment, segment.source = piece.written ∧ segment.token? = some piece.token ∧
      (tolerant = false → segment.isUnclosed = false) ∧
      segments (piece.written ++ (piece.blanks ++ spelled behind)) =
        segment :: segments (piece.blanks ++ spelled behind) := by
  cases here with
  | @bare text blanks behind filled unbroken unquoted ended =>
      refine ⟨.bare text, rfl, rfl, fun _ => rfl, segments_bare filled unbroken unquoted ?_⟩
      intro byte first
      cases blanks with
      | nil =>
          rw [ended.resolve_left (fun filled => filled rfl)] at first
          cases first
      | cons next blanks =>
          obtain rfl : next = byte := Option.some.inj first
          exact blank next List.mem_cons_self
  | @quoted quote text blanks behind unmarked =>
      refine ⟨.quoted quote text, rfl, rfl, fun _ => rfl, ?_⟩
      simpa using segments_quoted unmarked (blanks ++ spelled behind)
  | @unclosed quote text tolerated unmarked =>
      refine ⟨.unclosed quote text, rfl, rfl, ?_, ?_⟩
      · rw [tolerated]
        exact fun strict => nomatch strict
      · simpa [spelled, segments] using segments_unclosed unmarked

/-! ## The spelling of a raw query -/

namespace Spelling

/-- Collect segments into pieces: what holds no token belongs to the blanks. -/
def ofSegments : List Segment → Spelling
  | [] => ⟨[], []⟩
  | segment :: later =>
    let rest := ofSegments later
    match segment.token? with
    | none => ⟨segment.source ++ rest.blanks, rest.pieces⟩
    | some token => ⟨[], ⟨token, segment.source, rest.blanks⟩ :: rest.pieces⟩

theorem ofSegments_blanks (blanks : Bytes) (later : List Segment) :
    ofSegments (blanks.map Segment.blank ++ later) =
      ⟨blanks ++ (ofSegments later).blanks, (ofSegments later).pieces⟩ := by
  induction blanks with
  | nil => rfl
  | cons first blanks induction =>
      rw [List.map_cons, List.cons_append, ofSegments, induction]
      rfl

theorem tokens_ofSegments (list : List Segment) :
    (ofSegments list).tokens = list.filterMap Segment.token? := by
  induction list with
  | nil => rfl
  | cons segment later induction =>
      rw [tokens] at induction
      cases held : segment.token? <;> simp [ofSegments, tokens, held, induction]

theorem ofSegments_spelled {tolerant : Bool} {pieces : List Piece}
    (written : ArePieces tolerant pieces) :
    ofSegments (segments (spelled pieces)) = ⟨[], pieces⟩ := by
  induction written with
  | nil => simp [spelled, segments, ofSegments]
  | @cons piece behind here blank _ induction =>
      obtain ⟨segment, source, held, -, cut⟩ := here.segments_eq blank
      rw [spelled, List.flatMap_cons, List.append_assoc, ← spelled, cut, ofSegments,
        segments_blanks blank, ofSegments_blanks, induction, held, source]
      simp

theorem isClosed_spelled {pieces : List Piece} (written : ArePieces false pieces) :
    IsClosed (spelled pieces) := by
  induction written with
  | nil => simp [spelled, segments, IsClosed]
  | @cons piece behind here blank _ induction =>
      obtain ⟨segment, -, -, closed, cut⟩ := here.segments_eq blank
      rw [IsClosed, spelled, List.flatMap_cons, List.append_assoc, ← spelled, cut]
      intro other member
      rcases List.mem_cons.mp member with rfl | later
      · exact closed rfl
      · exact isClosed_blanks blank induction other later

variable {spelling : Spelling} {tolerant : Bool} {raw : Bytes}

/-- A spelling is what the segments of its raw query are collected into. -/
theorem Spells.eq_ofSegments (spells : spelling.Spells tolerant raw) :
    spelling = ofSegments (segments raw) := by
  obtain ⟨blank, written, rfl⟩ := spells
  rw [Spelling.raw, segments_blanks blank, ofSegments_blanks, ofSegments_spelled written,
    List.append_nil]

theorem Spells.isClosed (spells : spelling.Spells false raw) : IsClosed raw := by
  obtain ⟨blank, written, rfl⟩ := spells
  exact isClosed_blanks blank (isClosed_spelled written)

theorem Spells.eq_nil (spells : spelling.Spells tolerant []) : spelling = ⟨[], []⟩ := by
  rw [spells.eq_ofSegments, segments, ofSegments]

theorem Spells.ended (spells : spelling.Spells tolerant raw)
    (stopped : ∀ byte ∈ raw.head?, Segment.isBlank byte = true) :
    spelling.blanks ≠ [] ∨ spelling.pieces = [] := by
  obtain ⟨blanks, pieces⟩ := spelling
  obtain ⟨-, written, rfl⟩ := spells
  cases written with
  | nil => exact .inr rfl
  | @cons piece behind here _ _ =>
      left
      rintro rfl
      obtain ⟨first, rest, starts, letter⟩ := here.written_eq_cons
      have blank := stopped first (by simp [Spelling.raw, spelled, starts])
      rw [letter] at blank
      cases blank

theorem Spells.cons_blank (spells : spelling.Spells tolerant raw) {byte : UInt8}
    (blank : Segment.isBlank byte = true) :
    (⟨byte :: spelling.blanks, spelling.pieces⟩ : Spelling).Spells tolerant (byte :: raw) where
  blank := List.forall_mem_cons.mpr ⟨blank, spells.blank⟩
  pieces := spells.pieces
  whole := congrArg (byte :: ·) spells.whole

theorem Spells.cons_piece (spells : spelling.Spells tolerant raw) {token : Token}
    {written : Bytes} (here : IsPiece tolerant spelling.pieces ⟨token, written, spelling.blanks⟩) :
    (⟨[], ⟨token, written, spelling.blanks⟩ :: spelling.pieces⟩ : Spelling).Spells tolerant
      (written ++ raw) where
  blank := fun _ member => nomatch member
  pieces := .cons here spells.blank spells.pieces
  whole := by
    rw [← spells.whole]
    simp [Spelling.raw, spelled]

theorem spells_nil (tolerant : Bool) : (⟨[], []⟩ : Spelling).Spells tolerant [] where
  blank := fun _ member => nomatch member
  pieces := .nil
  whole := rfl

/-- What is cut off the front is put in front of a spelling of what is left behind it. -/
theorem Spells.exists_of_isFront {segment : Segment} {behind : Bytes}
    (spells : spelling.Spells tolerant behind) (cut : IsFront raw segment behind)
    (closed : tolerant = true ∨ segment.isUnclosed = false) :
    ∃ whole : Spelling, whole.Spells tolerant raw := by
  cases cut with
  | blank stops => exact ⟨_, spells.cons_blank stops⟩
  | bare filled unbroken unquoted ended =>
      exact ⟨_, spells.cons_piece (.bare filled unbroken unquoted (spells.ended ended))⟩
  | @quoted quote text _ unmarked =>
      have whole := spells.cons_piece (.quoted unmarked)
      rw [List.cons_append, List.append_assoc, List.singleton_append] at whole
      exact ⟨_, whole⟩
  | unclosed unmarked =>
      have tolerated : tolerant = true := closed.resolve_right Bool.noConfusion
      obtain rfl := spells.eq_nil
      have whole := spells.cons_piece (.unclosed tolerated unmarked)
      rw [List.append_nil] at whole
      exact ⟨_, whole⟩

theorem exists_spells {tolerant : Bool} {raw : Bytes} (closed : tolerant = true ∨ IsClosed raw) :
    ∃ spelling : Spelling, spelling.Spells tolerant raw := by
  rw [IsClosed] at closed
  fun_induction segments raw with
  | case1 => exact ⟨⟨[], []⟩, spells_nil tolerant⟩
  | case2 first rest induction =>
      have later : tolerant = true ∨ IsClosed (Segment.front first rest).2 :=
        closed.imp_right fun closed segment member =>
          closed segment (List.mem_cons_of_mem _ member)
      obtain ⟨spelling, spells⟩ := induction later
      exact spells.exists_of_isFront (isFront_front first rest)
        (closed.imp_right fun closed => closed _ List.mem_cons_self)

end Spelling

/-! ## Splitting into tokens -/

theorem tokenize_eq_ok_iff {tolerant : Bool} {raw : Bytes} {tokens : List Token} :
    tokenize tolerant raw = .ok tokens ↔
      (tolerant = true ∨ IsClosed raw) ∧ (segments raw).filterMap Segment.token? = tokens := by
  cases tolerant with
  | true => simp [tokenize]
  | false => simpa using tokenize_strict_eq_ok_iff

theorem tokenize_eq_ok_iff_spells {tolerant : Bool} {raw : Bytes} {tokens : List Token} :
    tokenize tolerant raw = .ok tokens ↔
      ∃ spelling : Spelling, spelling.Spells tolerant raw ∧ spelling.tokens = tokens := by
  rw [tokenize_eq_ok_iff]
  constructor
  · rintro ⟨closed, rfl⟩
    obtain ⟨spelling, spells⟩ := Spelling.exists_spells closed
    refine ⟨spelling, spells, ?_⟩
    rw [spells.eq_ofSegments, Spelling.tokens_ofSegments]
  · rintro ⟨spelling, spells, rfl⟩
    constructor
    · cases tolerant with
      | true => exact .inl rfl
      | false => exact .inr spells.isClosed
    · rw [spells.eq_ofSegments, Spelling.tokens_ofSegments]

/-- A raw query is split into the tokens of its only spelling, and refused where it has none. -/
theorem tokenize_iff_spells (tolerant : Bool) (raw : Bytes) :
    (∀ tokens, tokenize tolerant raw = .ok tokens ↔
      ∃ spelling : Spelling, spelling.Spells tolerant raw ∧ spelling.tokens = tokens) ∧
    Subsingleton {spelling : Spelling // spelling.Spells tolerant raw} ∧
    ((∃ unclosed, tokenize tolerant raw = .error unclosed) ↔
      ¬∃ spelling : Spelling, spelling.Spells tolerant raw) ∧
    ∃ tokens, tokenize true raw = .ok tokens := by
  refine ⟨fun tokens => tokenize_eq_ok_iff_spells, ?_, ?_, ?_⟩
  · constructor
    rintro ⟨spelling, spells⟩ ⟨other, spells'⟩
    apply Subtype.ext
    exact spells.eq_ofSegments.trans spells'.eq_ofSegments.symm
  · constructor
    · rintro ⟨unclosed, refused⟩ ⟨spelling, spells⟩
      have split := tokenize_eq_ok_iff_spells.mpr ⟨spelling, spells, rfl⟩
      rw [refused] at split
      cases split
    · intro none
      cases split : tokenize tolerant raw with
      | ok tokens =>
          obtain ⟨spelling, spells, -⟩ := tokenize_eq_ok_iff_spells.mp split
          exact absurd ⟨spelling, spells⟩ none
      | error unclosed => exact ⟨unclosed, rfl⟩
  · exact ⟨_, tokenize_eq_ok_iff.mpr ⟨.inl rfl, rfl⟩⟩

end NameSearch
