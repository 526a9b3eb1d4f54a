import NameSearch.Proofs.Query.SingleTerm
import NameSearch.Proofs.Search.Characters

/-!
# Terms as characters

The search looks at every byte of a candidate, also at those inside a character.  It still finds
whole characters only, so that a term without anchors is found where its characters stand one after
the other.
-/

namespace NameSearch

open Bytes

/-- Either comparison covers whole characters. -/
theorem Comparison.exists_chars {comparison : Comparison}
    (given : comparison = exact ∨ comparison = loose) {candidate sought : List Char} {offset : Nat}
    (found : comparison (ofChars candidate) offset (ofChars sought) ≠ 0) :
    ∃ before span after, candidate = before ++ (span ++ after) ∧
      offset = (ofChars before).length ∧
      comparison (ofChars candidate) offset (ofChars sought) = (ofChars span).length := by
  rcases given with rfl | rfl
  · have same := loose_eq_exact found
    rw [← same] at found ⊢
    exact exists_chars_of_loose found
  · exact exists_chars_of_loose found

@[simp]
theorem Anchor.allows_free (neighbour : Option UInt8) : Anchor.free.allows neighbour = true := by
  cases neighbour <;> rfl

theorem Pattern.Reads.eq_of_free {token : Token} {pattern : Pattern} (reads : Reads token pattern)
    (bare : token.quote = none) (left : pattern.left = .free) (right : pattern.right = .free) :
    pattern = ⟨token.text, .free, .free, false⟩ := by
  cases reads with
  | literal => rfl
  | marked stripped =>
      subst left right
      rw [stripped.whole, Anchor.leftMark, Anchor.rightMark, List.append_nil, List.nil_append]
  | quotedWord _ _ quoted => exact absurd bare quoted

/-- A text without anchors occurs in an encoded candidate where the candidate holds characters that
the characters of the text accept one by one. -/
theorem Pattern.occursIn_iff_exists_chars {sought : List Char} (filled : ofChars sought ≠ [])
    (candidate : List Char) :
    let pattern : Pattern := ⟨ofChars sought, .free, .free, false⟩
    pattern.occursIn (pattern.chosen none) (ofChars candidate) = true ↔
      ∃ before span after, candidate = before ++ (span ++ after) ∧
        List.Forall₂ Comparison.AcceptsChar sought span := by
  intro pattern
  rw [occursIn_chosen_iff]
  constructor
  · rintro ⟨before, span, after, whole, -, accepted, -, -⟩
    change Comparison.Accepts (ofChars sought) span at accepted
    obtain ⟨front, rest, rfl, -, behind⟩ := exists_cut_of_first whole fun byte start => by
      obtain ⟨first, later, text⟩ := List.exists_cons_of_ne_nil filled
      rw [text] at accepted
      obtain ⟨met, _, hit, -, rfl⟩ := List.forall₂_cons_left_iff.mp accepted
      obtain rfl := Option.some.inj start
      exact Comparison.isUTF8FirstByte_of_accepts_head text hit
    obtain ⟨characters, back, rfl, accepts, -, -⟩ :=
      Comparison.exists_chars_of_accepts accepted behind.symm
    exact ⟨front, characters, back, rfl, accepts⟩
  · rintro ⟨before, span, after, rfl, accepts⟩
    have accepted := Comparison.accepts_ofChars accepts
    refine ⟨ofChars before, ofChars span, ofChars after, ?_, ?_, accepted, ?_, ?_⟩
    · rw [ofChars_append, ofChars_append]
    · intro empty
      rw [empty] at accepted
      exact filled (List.forall₂_nil_right_iff.mp accepted)
    · exact (Anchor.allows_iff.mp (Anchor.allows_free _)).imp_left List.getLast?_eq_none_iff.mp
    · exact (Anchor.allows_iff.mp (Anchor.allows_free _)).imp_left List.head?_eq_none_iff.mp

/-- Whatever a term asks for, what either comparison covers starts and ends between characters of the
candidate; and a bare term without anchors is found, without a given comparison, where its
characters stand one after the other. -/
theorem found_characters_iff (text : String) (quote : Option Quote) :
    (∀ comparison, comparison = Comparison.exact ∨ comparison = Comparison.loose →
      ∀ (candidate : String) (offset : Nat),
        let length :=
          comparison (ofString candidate) offset (Pattern.ofToken ⟨ofString text, quote⟩).text
        length ≠ 0 → (String.Pos.Raw.mk offset).IsValid candidate ∧
          (String.Pos.Raw.mk (offset + length)).IsValid candidate) ∧
    (let token := Token.bare (ofString text)
     token.mayBeTerm = true → (Pattern.ofToken token).left = .free →
      (Pattern.ofToken token).right = .free → ∀ candidates : List String,
        ((evaluate (candidates.map ofString) none [token]).found = true ↔
          ∃ candidate ∈ candidates, ∃ before span after,
            candidate.toList = before ++ (span ++ after) ∧
              List.Forall₂ Comparison.AcceptsChar text.toList span)) := by
  constructor
  · intro comparison given candidate offset length found
    obtain ⟨sought, encoded⟩ :=
      (Pattern.reads_ofToken ⟨ofString text, quote⟩).exists_ofChars (ofString_eq_ofChars text)
    have covered : length = comparison (ofChars candidate.toList) offset (ofChars sought) := by
      rw [← ofString_eq_ofChars, ← encoded]
    rw [covered] at found ⊢
    obtain ⟨before, span, after, whole, rfl, reached⟩ := Comparison.exists_chars given found
    refine ⟨isValid_length_ofChars whole, ?_⟩
    rw [reached, ← List.length_append, ← ofChars_append]
    exact isValid_length_ofChars (by rw [whole, List.append_assoc])
  · intro token term left right candidates
    have filled : ofChars text.toList ≠ [] := by
      rw [← ofString_eq_ofChars]
      exact Token.text_ne_nil_of_mayBeTerm term
    have pattern : Pattern.ofToken token = ⟨ofChars text.toList, .free, .free, false⟩ := by
      rw [(Pattern.reads_ofToken token).eq_of_free rfl left right, ← ofString_eq_ofChars]
      rfl
    rw [found_evaluate_singleton term, contains, pattern, List.any_map, List.any_eq_true]
    refine exists_congr fun candidate => and_congr_right fun _ => ?_
    rw [Function.comp_apply, ofString_eq_ofChars candidate]
    exact Pattern.occursIn_iff_exists_chars filled candidate.toList

/-- The loose comparison covers `é A` where `é-a` is asked for, from offset three to offset seven;
without it the second candidate is found by its `é-A`. -/
theorem found_characters_iff_accent :
    let anchored : Token := ⟨ofString "^é-a$", some .single⟩
    let token := Token.bare (ofString "é-a")
    let candidates := ["café A", "CAFé-A!"]
    let length := Comparison.loose (ofString "café A") 3 (Pattern.ofToken anchored).text
    length = 4 ∧ (String.Pos.Raw.mk 3).IsValid "café A" ∧
      (String.Pos.Raw.mk (3 + length)).IsValid "café A" ∧ token.mayBeTerm = true ∧
      (Pattern.ofToken token).left = .free ∧ (Pattern.ofToken token).right = .free ∧
      (evaluate (candidates.map ofString) none [token]).found = true := by
  intro anchored token candidates length
  have covered : length = 4 := by decide
  have filled : length ≠ 0 := by decide
  have term : token.mayBeTerm = true := by decide
  have left : (Pattern.ofToken token).left = .free := by decide
  have right : (Pattern.ofToken token).right = .free := by decide
  obtain ⟨starts, ends⟩ :=
    (found_characters_iff "^é-a$" (some .single)).1 _ (.inr rfl) "café A" 3 filled
  refine ⟨covered, starts, ends, term, left, right, ?_⟩
  apply ((found_characters_iff "é-a" none).2 term left right candidates).mpr
  refine ⟨"CAFé-A!", by decide, ['C', 'A', 'F'], ['é', '-', 'A'], ['!'], by decide, ?_⟩
  exact .cons (.inl rfl) (.cons (.inl rfl) (.cons (.inr ⟨rfl, by decide⟩) .nil))

end NameSearch
