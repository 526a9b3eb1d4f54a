import NameSearch.Proofs.Query.AnyCase
import NameSearch.Proofs.Query.Spelling

/-!
# Quotations that are never closed

Strict and tolerant splitting differ only where a quotation is left open.  It is the last segment
then, and what stands in front of it is split as if it stood alone.  A query that is refused for it
is one term, which is neither a keyword nor a bracket; so only blanks spell the empty query.
-/

namespace NameSearch

theorem filterMap_token?_eq_nil_iff {raw : Bytes} :
    (segments raw).filterMap Segment.token? = [] ↔ AreBlank raw := by
  fun_induction segments raw with
  | case1 => simp [AreBlank]
  | case2 first rest induction =>
      have cut := isFront_front first rest
      have parts : AreBlank (first :: rest) ↔
          AreBlank (Segment.front first rest).1.source ∧ AreBlank (Segment.front first rest).2 := by
        rw [← cut.source_append]
        exact List.forall_mem_append
      rw [parts, cut.areBlank_source_iff, ← induction, List.filterMap_eq_nil_iff,
        List.forall_mem_cons, List.filterMap_eq_nil_iff]

/-! ## The open quotation -/

/-- A raw query that ends in an open quotation, and what stands in front of it. -/
structure LeavesOpen (raw front : Bytes) (quote : Quote) (text : Bytes) : Prop where
  /-- The opening mark and the quoted text are the end of the query. -/
  whole : raw = front ++ quote.byte :: text
  /-- No mark closes the quotation. -/
  unmarked : quote.byte ∉ text
  /-- Every quotation in front of it is closed. -/
  closed : IsClosed front
  /-- The segments in front of it are those of the front alone. -/
  cut : segments raw = segments front ++ [Segment.unclosed quote text]

theorem IsFront.leavesOpen {raw behind : Bytes} {segment : Segment}
    (cut : IsFront raw segment behind) (left : segment.isUnclosed = true) :
    ∃ quote text, LeavesOpen raw [] quote text := by
  cases cut with
  | @unclosed quote text unmarked =>
      refine ⟨quote, text, rfl, unmarked, ?_, ?_⟩
      · simp [IsClosed, segments]
      · rw [segments_unclosed unmarked, segments, List.nil_append]
  | _ => cases left

theorem LeavesOpen.cons {raw behind front text : Bytes} {segment : Segment} {quote : Quote}
    (leaves : LeavesOpen behind front quote text) (cut : IsFront raw segment behind)
    (closed : segment.isUnclosed = false) :
    LeavesOpen raw (segment.source ++ front) quote text := by
  have same : segments (segment.source ++ front) = segment :: segments front :=
    (IsFront.shorten (leaves.whole ▸ cut) closed).segments_eq
  refine ⟨?_, leaves.unmarked, ?_, ?_⟩
  · rw [List.append_assoc, ← leaves.whole, cut.source_append]
  · rw [IsClosed, same]
    exact List.forall_mem_cons.mpr ⟨closed, leaves.closed⟩
  · rw [cut.segments_eq, leaves.cut, same, List.cons_append]

/-- The position that is refused is the one of the mark that opens the last segment. -/
theorem exists_leavesOpen {raw : Bytes} {position : Nat} {unclosed : UnclosedQuote}
    (found : unclosedFrom position (segments raw) = some unclosed) :
    ∃ front quote text, LeavesOpen raw front quote text ∧
      unclosed.position = position + front.length := by
  fun_induction segments raw generalizing position with
  | case1 => cases found
  | case2 first rest induction =>
      have cut := isFront_front first rest
      generalize (Segment.front first rest).1 = segment at *
      generalize (Segment.front first rest).2 = behind at *
      rw [unclosedFrom] at found
      cases left : segment.isUnclosed with
      | true =>
          rw [left, if_pos rfl] at found
          obtain rfl := Option.some.inj found
          obtain ⟨quote, text, leaves⟩ := cut.leavesOpen left
          exact ⟨[], quote, text, leaves, rfl⟩
      | false =>
          rw [left, if_neg Bool.false_ne_true] at found
          obtain ⟨front, quote, text, leaves, reached⟩ := induction found
          refine ⟨_, quote, text, leaves.cons cut left, ?_⟩
          rw [reached, List.length_append, Nat.add_assoc]

theorem exists_leavesOpen_of_tokenize {raw : Bytes} {unclosed : UnclosedQuote}
    (refused : tokenize false raw = .error unclosed) :
    ∃ front quote text, LeavesOpen raw front quote text ∧ unclosed.position = front.length := by
  cases found : unclosedFrom 0 (segments raw) with
  | none =>
      simp only [tokenize, found] at refused
      cases refused
  | some other =>
      simp only [tokenize, found] at refused
      obtain rfl := Except.error.inj refused
      simpa using exists_leavesOpen found

/-! ## The query -/

theorem Token.role_of_mem_quote {text : Bytes} {quote : Quote} (marked : quote.byte ∈ text) :
    (bare text).role = .term := by
  have other : ∀ sign : Bytes, quote.byte ∉ sign → text ≠ sign := by
    rintro sign unmarked rfl
    exact unmarked marked
  have noKeyword : ∀ keyword : Keyword, text ≠ keyword.text := by
    intro keyword
    exact other _ (by cases keyword <;> cases quote <;> decide)
  have noBracket : text ≠ openingText ∧ text ≠ closingText :=
    ⟨other _ (by cases quote <;> decide), other _ (by cases quote <;> decide)⟩
  rw [role, bare, if_neg (List.ne_nil_of_mem marked), if_neg (by exact Bool.false_ne_true),
    if_neg noBracket.1, if_neg noBracket.2, Keyword.ofText?, if_neg (noKeyword .and),
    if_neg (noKeyword .or), if_neg (noKeyword .not)]

namespace LeavesOpen

variable {raw front text : Bytes} {quote : Quote}

theorem take_eq (leaves : LeavesOpen raw front quote text) : raw.take front.length = front := by
  rw [leaves.whole, List.take_left]

theorem drop_eq (leaves : LeavesOpen raw front quote text) :
    raw.drop (front.length + 1) = text := by
  rw [leaves.whole, ← List.drop_drop, List.drop_left, List.drop_one, List.tail_cons]

theorem getElem?_eq (leaves : LeavesOpen raw front quote text) :
    raw[front.length]? = some quote.byte := by
  rw [leaves.whole, List.getElem?_append_right (Nat.le_refl _), Nat.sub_self, List.getElem?_cons_zero]

theorem mem (leaves : LeavesOpen raw front quote text) : quote.byte ∈ raw := by
  rw [leaves.whole]
  exact List.mem_append_right front List.mem_cons_self

/-- What stands in front of an open quotation is split strictly, and the quotation is one more token
where it is tolerated. -/
theorem tokenize_eq (leaves : LeavesOpen raw front quote text) :
    ∃ tokens, tokenize false front = .ok tokens ∧
      tokenize true raw = .ok (tokens ++ [⟨text, some quote⟩]) := by
  refine ⟨_, tokenize_eq_ok_iff.mpr ⟨.inr leaves.closed, rfl⟩, ?_⟩
  refine tokenize_eq_ok_iff.mpr ⟨.inl rfl, ?_⟩
  rw [leaves.cut, List.filterMap_append]
  rfl

/-- A query that is refused is the term that it is written as. -/
theorem parseWith_eq (leaves : LeavesOpen raw front quote text) {unclosed : UnclosedQuote}
    (refused : tokenize false raw = .error unclosed) :
    Query.parseWith false raw = ⟨[Token.bare raw.lower]⟩ ∧ (Token.bare raw.lower).role = .term := by
  have term := Token.role_of_mem_quote leaves.mem
  have plain : (Token.bare raw).normalize = Token.bare raw.lower := by
    apply Token.normalize_of_isKeyword_eq_false
    apply Token.isKeyword_of_mayBeTerm
    rw [Token.mayBeTerm, term]
  constructor
  · simp only [Query.parseWith, Query.split, refused, List.map_cons, List.map_nil, plain]
  · rw [← plain, Token.role_normalize, term]

end LeavesOpen

theorem Query.isEmpty_parseWith_iff (tolerant : Bool) (raw : Bytes) :
    (parseWith tolerant raw).isEmpty = true ↔ AreBlank raw := by
  rw [isEmpty, parseWith, List.isEmpty_iff, List.map_eq_nil_iff, split]
  cases outcome : tokenize tolerant raw with
  | ok tokens =>
      obtain ⟨-, rfl⟩ := tokenize_eq_ok_iff.mp outcome
      exact filterMap_token?_eq_nil_iff
  | error unclosed =>
      cases tolerant with
      | true => cases outcome
      | false =>
          obtain ⟨_, quote, _, leaves, -⟩ := exists_leavesOpen_of_tokenize outcome
          refine iff_of_false (List.cons_ne_nil _ _) fun blank => ?_
          have contrary := blank _ leaves.mem
          rw [Segment.isBlank_byte] at contrary
          cases contrary

/-- Strict and tolerant splitting agree unless a quotation is left open.  Then the strict one refuses
the query at the mark that opens it; what stands in front of that mark is split strictly, the
tolerant tokens are these and the quotation, and the query is read as one term.  In either way, only
blanks spell the empty query. -/
theorem tokenize_eq_until_unclosed (raw : Bytes) :
    (∀ tokens, tokenize false raw = .ok tokens → tokenize true raw = .ok tokens) ∧
    (∀ position, tokenize false raw = .error ⟨position⟩ →
      (∃ (quote : Quote) (tokens : List Token),
        raw[position]? = some quote.byte ∧ quote.byte ∉ raw.drop (position + 1) ∧
          tokenize false (raw.take position) = .ok tokens ∧
          tokenize true raw = .ok (tokens ++ [⟨raw.drop (position + 1), some quote⟩])) ∧
      Query.parseWith false raw = ⟨[Token.bare raw.lower]⟩ ∧
      (Token.bare raw.lower).isKeyword = false ∧ (Token.bare raw.lower).role = .term) ∧
    ∀ tolerant, (Query.parseWith tolerant raw).isEmpty = true ↔ AreBlank raw := by
  refine ⟨fun tokens split => ?_, fun position refused => ?_,
    fun tolerant => Query.isEmpty_parseWith_iff tolerant raw⟩
  · obtain ⟨-, rfl⟩ := tokenize_strict_eq_ok_iff.mp split
    rfl
  · obtain ⟨front, quote, text, leaves, reached⟩ := exists_leavesOpen_of_tokenize refused
    obtain rfl : position = front.length := reached
    obtain ⟨query, term⟩ := leaves.parseWith_eq refused
    obtain ⟨tokens, inFront, whole⟩ := leaves.tokenize_eq
    have word := Token.isKeyword_of_mayBeTerm (by rw [Token.mayBeTerm, term])
    rw [leaves.take_eq, leaves.drop_eq]
    exact ⟨⟨quote, tokens, leaves.getElem?_eq, leaves.unmarked, inFront, whole⟩, query, word, term⟩

/-- The mark before `OOPS` is refused: the other mark behind it does not close it, and the quotations
before it are closed by their own. -/
theorem tokenize_eq_until_unclosed_oops :
    let front := Bytes.ofString "A 'b'\"c\" NOT "
    let raw := front ++ Bytes.ofString "'OOPS \""
    let tokens := [Token.bare (Bytes.ofString "A"), ⟨Bytes.ofString "b", some .single⟩,
      ⟨Bytes.ofString "c", some .double⟩, Token.bare (Bytes.ofString "NOT")]
    tokenize false front = .ok tokens ∧ tokenize true front = .ok tokens ∧
      tokenize false raw = .error ⟨13⟩ ∧
      (∃ (quote : Quote) (tokens : List Token),
        raw[13]? = some quote.byte ∧ quote.byte ∉ raw.drop 14 ∧
          tokenize false (raw.take 13) = .ok tokens ∧
          tokenize true raw = .ok (tokens ++ [⟨raw.drop 14, some quote⟩])) ∧
      Query.parseWith false raw =
        ⟨[Token.bare (Bytes.ofString "a 'b'\"c\" not 'oops \"")]⟩ := by
  intro front raw tokens
  have split : tokenize false front = .ok tokens := by
    simp only [front, tokens]
    decide +kernel
  have refused : tokenize false raw = .error ⟨13⟩ := by
    simp only [raw, front]
    decide +kernel
  have lowered : raw.lower = Bytes.ofString "a 'b'\"c\" not 'oops \"" := by decide
  obtain ⟨same, -⟩ := tokenize_eq_until_unclosed front
  obtain ⟨-, open_, -⟩ := tokenize_eq_until_unclosed raw
  obtain ⟨quotation, query, -⟩ := open_ 13 refused
  exact ⟨split, same tokens split, refused, quotation, lowered ▸ query⟩

end NameSearch
