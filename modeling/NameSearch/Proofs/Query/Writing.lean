import NameSearch.Proofs.Query.AnyCase

/-!
# Writing queries

A query is written as its tokens with a space between any two, each quotation between its own marks.
Whatever a query was spelled like, with tokens that touch or a quotation that is left open, it is
written so that strict splitting gives its tokens back.  Their letter case has been lost before, so
that the query is parsed from what it is written as.
-/

namespace NameSearch

/-! ## Tokens that can be written -/

namespace Token

/-- What a token is written as: a quotation between its own marks, any other token as it is. -/
def written (token : Token) : Bytes :=
  match token.quote with
  | none => token.text
  | some quote => quote.byte :: (token.text ++ [quote.byte])

/-- A token that is cut out again where it is written. -/
inductive IsLegible : Token → Prop where
  /-- A word that does not start with a quotation mark. -/
  | bare {text : Bytes} (filled : text ≠ [])
      (unbroken : ∀ byte ∈ text, Segment.isBlank byte = false)
      (unquoted : ∀ quote : Quote, text.head? ≠ some quote.byte) : IsLegible (Token.bare text)
  /-- A quotation that does not hold its own mark. -/
  | quoted {quote : Quote} {text : Bytes} (unmarked : quote.byte ∉ text) :
      IsLegible ⟨text, some quote⟩

end Token

theorem IsFront.isLegible {raw behind : Bytes} {segment : Segment} {token : Token}
    (cut : IsFront raw segment behind) (held : segment.token? = some token) :
    token.IsLegible := by
  cases cut with
  | blank => cases held
  | bare filled unbroken unquoted _ =>
      obtain rfl := Option.some.inj held
      exact .bare filled unbroken unquoted
  | quoted unmarked =>
      obtain rfl := Option.some.inj held
      exact .quoted unmarked
  | unclosed unmarked =>
      obtain rfl := Option.some.inj held
      exact .quoted unmarked

theorem isLegible_of_mem_segments {raw : Bytes} :
    ∀ token ∈ (segments raw).filterMap Segment.token?, token.IsLegible := by
  fun_induction segments raw with
  | case1 => exact List.forall_mem_nil _
  | case2 first rest induction =>
      intro token member
      obtain ⟨segment, inside, held⟩ := List.mem_filterMap.mp member
      rcases List.mem_cons.mp inside with rfl | later
      · exact (isFront_front first rest).isLegible held
      · exact induction token (List.mem_filterMap.mpr ⟨segment, later, held⟩)

/-! ## Normalized tokens -/

theorem Segment.isBlank_lower (byte : UInt8) : isBlank (Byte.lower byte) = isBlank byte := by
  simp (disch := decide) only [isBlank, Byte.isLineEnd, Byte.lower_beq]

theorem Quote.lower_eq_byte_iff (quote : Quote) (byte : UInt8) :
    Byte.lower byte = quote.byte ↔ byte = quote.byte := by
  cases quote <;> exact Byte.lower_eq_iff rfl rfl byte

theorem Bytes.lower_lower (text : Bytes) : text.lower.lower = text.lower := by
  rw [lower, lower, List.map_map]
  apply List.map_congr_left
  intro byte _
  exact Byte.lower_of_isUpper_eq_false (Byte.isUpper_lower byte)

namespace Token

theorem IsLegible.normalize {token : Token} (legible : token.IsLegible) :
    token.normalize.IsLegible := by
  cases legible with
  | quoted unmarked => exact .quoted unmarked
  | @bare text filled unbroken unquoted =>
      cases word : (Token.bare text).isKeyword with
      | true =>
          rw [Token.normalize, word, Bool.or_true, if_pos rfl]
          exact .bare filled unbroken unquoted
      | false =>
          rw [normalize_of_isKeyword_eq_false word]
          refine .bare (mt List.map_eq_nil_iff.mp filled) ?_ ?_
          · intro byte member
            obtain ⟨before, inside, rfl⟩ := List.mem_map.mp member
            rw [Segment.isBlank_lower]
            exact unbroken before inside
          · intro quote starts
            rw [Bytes.lower, List.head?_map, Option.map_eq_some_iff] at starts
            obtain ⟨first, head, same⟩ := starts
            obtain rfl := (quote.lower_eq_byte_iff first).mp same
            exact unquoted quote head

theorem normalize_normalize (token : Token) : token.normalize.normalize = token.normalize := by
  obtain ⟨text, _ | quote⟩ := token
  · rw [← bare]
    cases word : (bare text).isKeyword with
    | true =>
        have kept : (bare text).normalize = bare text := by
          rw [normalize, word, Bool.or_true, if_pos rfl]
        rw [kept, kept]
    | false =>
        have lowered : (bare text.lower).isKeyword = false := by
          rw [isKeyword, keyword?, bare, Keyword.ofText?_lower]
          rfl
        rw [normalize_of_isKeyword_eq_false word, normalize_of_isKeyword_eq_false lowered,
          Bytes.lower_lower]
  · rfl

end Token

/-! ## Splitting what is written -/

/-- A blank between two texts that are split strictly splits them apart. -/
theorem tokenize_append_blank {front back : Bytes} {tokens others : List Token}
    (before : tokenize false front = .ok tokens) (behind : tokenize false back = .ok others)
    {blank : UInt8} (stops : Segment.isBlank blank = true) :
    tokenize false (front ++ blank :: back) = .ok (tokens ++ others) := by
  obtain ⟨closed, rfl⟩ := tokenize_strict_eq_ok_iff.mp before
  obtain ⟨closed', rfl⟩ := tokenize_strict_eq_ok_iff.mp behind
  refine tokenize_strict_eq_ok_iff.mpr ⟨isClosed_append_blank closed closed' stops, ?_⟩
  rw [segments_append_blank closed stops, List.filterMap_append, List.filterMap_cons_none rfl]

theorem Token.IsLegible.segments_written {token : Token} (legible : token.IsLegible) :
    ∃ segment, segments token.written = [segment] ∧ segment.isUnclosed = false ∧
      segment.token? = some token := by
  cases legible with
  | @bare text filled unbroken unquoted =>
      have cut : segments (text ++ []) = _ :=
        segments_bare filled unbroken unquoted fun _ head => nomatch head
      rw [List.append_nil, segments] at cut
      exact ⟨.bare text, cut, rfl, rfl⟩
  | @quoted quote text unmarked =>
      have cut := segments_quoted unmarked []
      rw [segments] at cut
      exact ⟨.quoted quote text, cut, rfl, rfl⟩

theorem Token.IsLegible.tokenize_written {token : Token} (legible : token.IsLegible) :
    tokenize false token.written = .ok [token] := by
  obtain ⟨segment, cut, closed, held⟩ := legible.segments_written
  exact tokenize_strict_eq_ok_iff.mpr (by simp [IsClosed, cut, closed, held])

namespace Query

/-- What a query is written as: its tokens with a space between any two. -/
def written (query : Query) : Bytes := [Byte.space].intercalate (query.tokens.map Token.written)

/-- Legible tokens are written so that strict splitting gives them back. -/
theorem tokenize_written {tokens : List Token} (legible : ∀ token ∈ tokens, token.IsLegible) :
    tokenize false (written ⟨tokens⟩) = .ok tokens := by
  induction tokens with
  | nil => exact tokenize_strict_eq_ok_iff.mpr (by simp [written, segments, IsClosed])
  | cons token later induction =>
      obtain ⟨here, behind⟩ := List.forall_mem_cons.mp legible
      have first := here.tokenize_written
      cases later with
      | nil => simpa [written] using first
      | cons next later =>
          have apart : Segment.isBlank Byte.space = true := rfl
          have joined := tokenize_append_blank first (induction behind) apart
          simpa [written, List.intercalate_cons_cons] using joined

theorem isLegible_of_mem_parse (raw : Bytes) : ∀ token ∈ (parse raw).tokens, token.IsLegible := by
  intro token member
  rw [tokens_parse] at member
  obtain ⟨before, inside, rfl⟩ := List.mem_map.mp member
  exact (isLegible_of_mem_segments before inside).normalize

theorem map_normalize_tokens_parse (raw : Bytes) :
    (parse raw).tokens.map Token.normalize = (parse raw).tokens := by
  rw [tokens_parse, List.map_map]
  exact List.map_congr_left fun token _ => token.normalize_normalize

/-- A parsed query can be written and parsed again: what it is written as is split without error,
into its tokens, and parsed as the same query whether a quotation may stay open or not. -/
theorem parse_written (raw : Bytes) :
    tokenize false (parse raw).written = .ok (parse raw).tokens ∧
      parse (parse raw).written = parse raw ∧
      parseWith false (parse raw).written = parse raw := by
  have strict := tokenize_written (isLegible_of_mem_parse raw)
  have tolerant : tokenize true (parse raw).written = .ok (parse raw).tokens :=
    congrArg Except.ok (tokenize_strict_eq_ok_iff.mp strict).2
  refine ⟨strict, ?_, ?_⟩
  · rw [parse_of_tokenize tolerant, map_normalize_tokens_parse]
  · rw [parseWith, Query.split, strict, map_normalize_tokens_parse]

/-- The tokens that touched stand apart, and the quotation that was left open is closed. -/
example :
    (parse (Bytes.ofString "NOT\t\"Pro-Q\"It's 'Half typed")).written =
      Bytes.ofString "NOT \"Pro-Q\" it's 'Half typed'" := by
  cbv

end Query
end NameSearch
