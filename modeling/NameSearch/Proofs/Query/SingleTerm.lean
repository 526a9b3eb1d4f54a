import NameSearch.Proofs.Query.Walking
import NameSearch.Proofs.Search.Bounds

/-!
# Queries of one term

A query of a single term is what it asks of the candidates: some candidate can be cut before and
after an occurrence whose neighbours its anchors allow.  The offset that is looked at is the number
of bytes before the occurrence, and no step of the search leads out of a candidate.
-/

namespace NameSearch

theorem Token.role_of_mayBeTerm {token : Token} (term : token.mayBeTerm = true) :
    token.role = .closing ∨ token.role = .term := by
  rw [mayBeTerm] at term
  split at term
  · next role => exact .inl role
  · next role => exact .inr role
  all_goals cases term

theorem Token.text_ne_nil_of_mayBeTerm {token : Token} (term : token.mayBeTerm = true) :
    token.text ≠ [] := by
  intro empty
  rw [mayBeTerm, role, if_pos empty] at term
  cases term

theorem found_evaluate_singleton {token : Token} (term : token.mayBeTerm = true)
    (candidates : List Bytes) (given : Option Comparison) :
    (evaluate candidates given [token]).found = contains candidates given token false := by
  have met : Walk.step (lookup candidates given) {} token =
      Walk.meet (lookup candidates given) {} token := by
    rcases Token.role_of_mayBeTerm term with role | role
    · exact Walk.step_stray role rfl
    · simp [role]
  rw [evaluate, Walk.run, Walk.run, met]
  cases found : contains candidates given token false <;>
    simp [Walk.meet, Level.isSettled, found, Walk.answer, Walk.close, Level.add,
      Outcome.conjoin, Outcome.holds]

end NameSearch
