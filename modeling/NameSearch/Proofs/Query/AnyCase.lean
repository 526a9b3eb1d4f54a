import Mathlib.Data.List.Forall2
import NameSearch.Proofs.Query.Splitting
import NameSearch.Proofs.Query.TreeEvaluation
import NameSearch.Proofs.Search.LetterCase

/-!
# Queries in any letter case

Bare words lose their letter case when a query is parsed, and candidates are searched without regard
to theirs.  Two raw queries that differ only in the case of such words ask the same of candidates
that differ only in the case of their letters.
-/

namespace NameSearch

namespace Token

/-- Whether two tokens are the same but for the letter case of words: only bare tokens that are no
keywords may differ. -/
def IsLike (token other : Token) : Prop :=
  token.quote = other.quote ∧
    (token.text = other.text ∨
      token.quote = none ∧ token.isKeyword = false ∧ other.isKeyword = false ∧
        token.text.lower = other.text.lower)

instance (token other : Token) : Decidable (IsLike token other) :=
  inferInstanceAs (Decidable (_ ∧ _))

theorem normalize_of_isKeyword_eq_false {text : Bytes} (word : (bare text).isKeyword = false) :
    (bare text).normalize = bare text.lower := by
  have kept : ((bare text).isQuoted || (bare text).isKeyword) = false := by
    rw [word]
    rfl
  rw [normalize, kept]
  rfl

theorem IsLike.normalize_eq {token other : Token} (like : IsLike token other) :
    token.normalize = other.normalize := by
  obtain ⟨text, quote⟩ := token
  obtain ⟨text', quote'⟩ := other
  obtain ⟨marks, same | ⟨unquoted, word, word', alike⟩⟩ := like
  · obtain rfl : quote = quote' := marks
    obtain rfl : text = text' := same
    rfl
  · obtain rfl : quote = none := unquoted
    obtain rfl : none = quote' := marks
    rw [← bare, ← bare, normalize_of_isKeyword_eq_false word,
      normalize_of_isKeyword_eq_false word']
    exact congrArg bare alike

theorem isKeyword_of_mayBeTerm {text : Bytes} (term : (bare text).mayBeTerm = true) :
    (bare text).isKeyword = false := by
  have unquoted : (bare text).isQuoted = false := rfl
  rw [isKeyword, keyword?, unquoted, if_neg Bool.false_ne_true, bare]
  cases known : Keyword.ofText? text with
  | none => rfl
  | some keyword =>
      obtain rfl := Keyword.text_of_ofText? known
      cases keyword <;> cases term

theorem isSmall_normalize {token : Token} (small : token.isQuoted = true → token.text.IsSmall)
    (term : token.normalize.mayBeTerm = true) : token.normalize.text.IsSmall := by
  obtain ⟨text, _ | quote⟩ := token
  · have word : (bare text).isKeyword = false := by
      apply isKeyword_of_mayBeTerm
      rwa [mayBeTerm, role_normalize, ← mayBeTerm] at term
    rw [← bare, normalize_of_isKeyword_eq_false word]
    exact Bytes.isSmall_lower text
  · exact small rfl

end Token

namespace Query

theorem parse_of_tokenize {raw : Bytes} {tokens : List Token}
    (split : tokenize true raw = .ok tokens) : parse raw = ⟨tokens.map Token.normalize⟩ := by
  rw [parse, parseWith, Query.split, split]

theorem map_normalize_eq {tokens others : List Token}
    (like : List.Forall₂ Token.IsLike tokens others) :
    tokens.map Token.normalize = others.map Token.normalize := by
  induction like with
  | nil => rfl
  | cons here _ induction => rw [List.map_cons, List.map_cons, here.normalize_eq, induction]

/-- A query without capitals in its quotations holds of candidates as of their lowercase forms. -/
theorem holds_map_lower {tokens : List Token}
    (small : ∀ token ∈ tokens, token.isQuoted = true → token.text.IsSmall)
    {given : Option Comparison} (known : given = none ∨ given = some Comparison.loose)
    (candidates : List Bytes) :
    holds ⟨tokens.map Token.normalize⟩ (candidates.map Bytes.lower) given =
      holds ⟨tokens.map Token.normalize⟩ candidates given := by
  apply found_congr_terms
  intro token member term negated
  obtain ⟨written, there, rfl⟩ := List.mem_map.mp member
  exact contains_map_lower (Token.isSmall_normalize (small written there) term) known candidates
    negated

/-- Letter case does not matter on either side: queries that are the same but for the case of bare
words, and without capitals in quotations, hold of candidates that are the same but for the case of
letters, compared exactly or loosely. -/
theorem holds_in_any_case {raw raw' : Bytes} {tokens tokens' : List Token}
    (split : tokenize true raw = .ok tokens) (split' : tokenize true raw' = .ok tokens')
    (like : List.Forall₂ Token.IsLike tokens tokens')
    (small : ∀ token ∈ tokens, token.isQuoted = true → token.text.IsSmall)
    {candidates candidates' : List Bytes}
    (alike : candidates.map Bytes.lower = candidates'.map Bytes.lower) :
    (parse raw).holds candidates none = (parse raw').holds candidates' none ∧
      (parse raw).holds candidates (some Comparison.loose) =
        (parse raw').holds candidates' (some Comparison.loose) := by
  have any (given : Option Comparison) (known : given = none ∨ given = some Comparison.loose) :
      (parse raw).holds candidates given = (parse raw').holds candidates' given := by
    rw [parse_of_tokenize split, parse_of_tokenize split', ← map_normalize_eq like,
      ← holds_map_lower small known candidates, alike, holds_map_lower small known candidates']
  exact ⟨any none (.inl rfl), any (some Comparison.loose) (.inr rfl)⟩

/-- The keywords and the quotation stay as they are; the words and the candidates are written in two
ways. -/
theorem holds_in_any_case_quoted :
    let bare := fun text => Token.bare (Bytes.ofString text)
    let quotation : Token := ⟨Bytes.ofString "drum kit", some .double⟩
    let raw := Bytes.ofString "Mono OR \"drum kit\" NOT ^ReaEQ"
    let raw' := Bytes.ofString "mONO OR \"drum kit\" NOT ^reaeq"
    let tokens := [bare "Mono", bare "OR", quotation, bare "NOT", bare "^ReaEQ"]
    let tokens' := [bare "mONO", bare "OR", quotation, bare "NOT", bare "^reaeq"]
    let candidates := [Bytes.ofString "Drum Kit", Bytes.ofString "ReaEQ"]
    let candidates' := [Bytes.ofString "DRUM KIT", Bytes.ofString "rEAeq"]
    (tokenize true raw = .ok tokens ∧ tokenize true raw' = .ok tokens') ∧
      candidates.map Bytes.lower = candidates'.map Bytes.lower ∧
      (parse raw).holds candidates none = (parse raw').holds candidates' none ∧
      (parse raw).holds candidates (some Comparison.loose) =
        (parse raw').holds candidates' (some Comparison.loose) := by
  intro bare quotation raw raw' tokens tokens' candidates candidates'
  have split : tokenize true raw = .ok tokens := by
    simp only [raw, tokens, bare, quotation]
    decide +kernel
  have split' : tokenize true raw' = .ok tokens' := by
    simp only [raw', tokens', bare, quotation]
    decide +kernel
  have like : List.Forall₂ Token.IsLike tokens tokens' :=
    .cons (by decide) (.cons (by decide) (.cons (by decide) (.cons (by decide)
      (.cons (by decide) .nil))))
  have kit : quotation.text.IsSmall := by
    have lowered : quotation.text.lower = quotation.text := by decide
    rw [← lowered]
    exact Bytes.isSmall_lower _
  have small : ∀ token ∈ tokens, token.isQuoted = true → token.text.IsSmall := by
    intro token member isQuoted
    have onlyKit : tokens.filter Token.isQuoted = [quotation] := rfl
    have same : token ∈ [quotation] := onlyKit ▸ List.mem_filter.mpr ⟨member, isQuoted⟩
    rwa [List.mem_singleton.mp same]
  have alike : candidates.map Bytes.lower = candidates'.map Bytes.lower := by decide
  exact ⟨⟨split, split'⟩, alike, holds_in_any_case split split' like small alike⟩

end Query
end NameSearch
