import NameSearch.Query.Token

/-!
# Letter case of tokens

Taking away the case of letters neither makes nor loses a keyword or a bracket: keywords are spelled
in capitals only, and brackets are no letters.  So a token does what it did before.
-/

namespace NameSearch

/-! ## Bytes and texts in lowercase -/

theorem Byte.lower_eq_iff {sign : UInt8} (noUpper : isUpper sign = false)
    (noLower : isLower sign = false) (byte : UInt8) : lower byte = sign ↔ byte = sign := by
  cases capital : isUpper byte with
  | false => simp [lower, capital]
  | true =>
      constructor
      · intro same
        rw [lower, capital, if_pos rfl] at same
        subst same
        simp [isUpper, isLower, UInt8.le_iff_toNat_le] at capital noLower
        omega
      · intro same
        rw [same, noUpper] at capital
        cases capital

theorem Bytes.lower_eq_singleton_iff {sign : UInt8} (noUpper : Byte.isUpper sign = false)
    (noLower : Byte.isLower sign = false) (text : Bytes) :
    text.lower = [sign] ↔ text = [sign] := by
  simp only [lower, List.map_eq_singleton_iff, Byte.lower_eq_iff noUpper noLower]
  constructor
  · rintro ⟨byte, rfl, rfl⟩
    rfl
  · intro same
    exact ⟨sign, same, rfl⟩

theorem Byte.isUpper_lower (byte : UInt8) : isUpper (lower byte) = false := by
  cases capital : isUpper byte with
  | false => simp [lower, capital]
  | true =>
      rw [lower, if_pos capital]
      simp [isUpper, UInt8.le_iff_toNat_le] at capital ⊢
      omega

theorem Bytes.lower_ne_of_capital {shouted : Bytes} (capital : shouted.any Byte.isUpper = true)
    (text : Bytes) : text.lower ≠ shouted := by
  intro same
  rw [← same, lower, List.any_map] at capital
  simp [Function.comp_def, Byte.isUpper_lower] at capital

theorem Keyword.ofText?_lower (text : Bytes) : ofText? text.lower = none := by
  rw [ofText?, if_neg (Bytes.lower_ne_of_capital rfl text),
    if_neg (Bytes.lower_ne_of_capital rfl text), if_neg (Bytes.lower_ne_of_capital rfl text)]

/-! ## Tokens -/

namespace Token

/-- A token does in lowercase letters what it did before. -/
@[simp]
theorem role_normalize (token : Token) : token.normalize.role = token.role := by
  cases kept : token.isQuoted || token.isKeyword with
  | true => rw [normalize, if_pos kept]
  | false =>
      obtain ⟨unquoted, plain⟩ := Bool.or_eq_false_iff.mp kept
      have noKeyword : Keyword.ofText? token.text = none := by
        simpa [isKeyword, keyword?, unquoted] using plain
      have stillUnquoted : ({ token with text := token.text.lower } : Token).isQuoted = false :=
        unquoted
      have opens : token.text.lower = openingText ↔ token.text = openingText :=
        Bytes.lower_eq_singleton_iff rfl rfl token.text
      have closes : token.text.lower = closingText ↔ token.text = closingText :=
        Bytes.lower_eq_singleton_iff rfl rfl token.text
      have empty : token.text.lower = [] ↔ token.text = [] := List.map_eq_nil_iff
      rw [normalize, kept, if_neg Bool.false_ne_true, role, role]
      simp only [stillUnquoted, unquoted, empty, opens, closes, Keyword.ofText?_lower, noKeyword]

end Token
end NameSearch
