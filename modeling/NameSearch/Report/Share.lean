import NameSearch.Report.Ratio

/-!
# Shares in per cent

A share is computed in double precision, the quotient first and the percentage from it, and printed
with one decimal.  Its tenths are rounded from the exact value of the result; a tie goes to the even
neighbour.
-/

namespace NameSearch
namespace Share

/-- How many per cent of some entries were matched; none if there were none. -/
def percent (matched scanned : Nat) : Ratio :=
  if scanned = 0 then ⟨0, 1⟩
  else
    let quotient := ((Ratio.mk matched 1).toDouble.div (Ratio.mk scanned 1).toDouble).toDouble
    (quotient.mul ⟨100, 1⟩).toDouble

/-- The share as it is printed. -/
def text (matched scanned : Nat) : String :=
  let tenths := ((percent matched scanned).mul ⟨10, 1⟩).rounded
  s!"{tenths / 10}.{tenths % 10}"

end Share
end NameSearch
