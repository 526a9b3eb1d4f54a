import NameSearch.Entry.Reading
import NameSearch.Proofs.Query.TreeEvaluation
import NameSearch.Proofs.Search.Separator

/-!
# Entries with joined fields

A query without the separator byte is satisfied by an entry whose fields are joined exactly when it
is satisfied by the entry with its fields apart, by both comparisons that are given.
-/

namespace NameSearch

theorem contains_intercalate {token : Token} (plain : Byte.separator ∉ token.text)
    {given : Option Comparison} (known : given = none ∨ given = some Comparison.loose)
    (fields : List Bytes) (negated : Bool) :
    contains [[Byte.separator].intercalate fields] given token negated =
      contains fields given token negated := by
  have cut : Byte.separator ∉ (Pattern.ofToken token).text := fun member =>
    plain ((Pattern.text_ofToken_isInfix token).subset member)
  have stops : ((Pattern.ofToken token).chosen
      (if negated then none else given)).StopsAtSeparator (Pattern.ofToken token).text :=
    Pattern.chosen_of_both (motive := fun comparison => comparison.StopsAtSeparator _)
      (Comparison.exact_stopsAtSeparator cut) (Comparison.loose_stopsAtSeparator cut) known _
      negated
  simp only [contains, List.any_cons, List.any_nil, Bool.or_false,
    Pattern.occursIn_intercalate stops]

theorem found_congr {candidates others : List Bytes} {given : Option Comparison}
    {tokens : List Token}
    (agree : ∀ token ∈ tokens, ∀ negated,
      contains candidates given token negated = contains others given token negated) :
    (evaluate candidates given tokens).found = (evaluate others given tokens).found :=
  found_congr_terms fun token member _ => agree token member

/-- An entry satisfies a query with its fields joined exactly when it does with its fields apart,
so that the same entries are chosen from a list and from an input. -/
theorem joined_iff_apart (settings : Settings) {query : Query} {comparison : Option Comparison}
    (plain : ∀ token ∈ query.tokens, Byte.separator ∉ token.text)
    (known : comparison = none ∨ comparison = some Comparison.loose) :
    (∀ entry : Entry,
      entry.satisfies { settings with joined := true } query comparison =
        entry.satisfies { settings with joined := false } query comparison) ∧
      (∀ entries,
        Entry.choose { settings with joined := true } query comparison entries =
          Entry.choose { settings with joined := false } query comparison entries) ∧
      ∀ input,
        { settings with joined := true }.select query comparison input =
          { settings with joined := false }.select query comparison input := by
  have same : Entry.satisfies { settings with joined := true } query comparison =
      Entry.satisfies { settings with joined := false } query comparison := by
    funext entry
    apply found_congr
    intro token member negated
    exact contains_intercalate (plain token member) known _ negated
  refine ⟨fun entry => congrFun same entry, fun entries => ?_, fun input => ?_⟩
  · rw [Entry.choose, Entry.choose, same]
  · rw [Settings.select, Settings.select, same]
    rfl

/-- `^b NOT ab` finds the second of two fields, and not the two fields as one word. -/
theorem joined_iff_apart_anchored :
    Entry.satisfies { joined := true }
        ⟨[Token.bare (Bytes.ofString "^b"), Token.bare (Bytes.ofString "NOT"),
          Token.bare (Bytes.ofString "ab")]⟩
        (some Comparison.loose) ⟨1, ["a", "b"]⟩ =
      Entry.satisfies { joined := false }
        ⟨[Token.bare (Bytes.ofString "^b"), Token.bare (Bytes.ofString "NOT"),
          Token.bare (Bytes.ofString "ab")]⟩
        (some Comparison.loose) ⟨1, ["a", "b"]⟩ :=
  (joined_iff_apart {} (by decide) (.inr rfl)).1 ⟨1, ["a", "b"]⟩

end NameSearch
