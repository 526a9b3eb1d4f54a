/-!
# Ratios and the floating-point numbers nearest to them

Shares are computed in double precision, that is, each result is replaced by the nearest number
whose binary significand has 53 digits.  Ratios of natural numbers hold such numbers exactly, so the
rounding is stated on them.
-/

namespace NameSearch

/-- A ratio of natural numbers, which need not be in lowest terms. -/
structure Ratio where
  /-- What is divided. -/
  numerator : Nat
  /-- What it is divided by. -/
  denominator : Nat := 1
  deriving DecidableEq

namespace Ratio

/-- The nearest natural number; of two that are equally near, the even one. -/
def rounded (ratio : Ratio) : Nat :=
  let quotient := ratio.numerator / ratio.denominator
  let rest := ratio.numerator % ratio.denominator
  if ratio.denominator < 2 * rest || (2 * rest == ratio.denominator && quotient % 2 == 1) then
    quotient + 1
  else quotient

/-- Product of two ratios. -/
def mul (left right : Ratio) : Ratio :=
  ⟨left.numerator * right.numerator, left.denominator * right.denominator⟩

/-- Quotient of two ratios. -/
def div (left right : Ratio) : Ratio :=
  ⟨left.numerator * right.denominator, left.denominator * right.numerator⟩

/-- A power of two. -/
def twoPow (exponent : Int) : Ratio :=
  if exponent < 0 then ⟨1, Nat.pow 2 (-exponent).toNat⟩ else ⟨Nat.pow 2 exponent.toNat, 1⟩

/-- Whether a ratio is at least one. -/
def isImproper (ratio : Ratio) : Bool := ratio.denominator ≤ ratio.numerator

/-- Exponent of the greatest power of two that is not above a positive ratio. -/
def magnitude (ratio : Ratio) : Int :=
  let estimate := (ratio.numerator.log2 : Int) - (ratio.denominator.log2 : Int)
  if (ratio.div (twoPow estimate)).isImproper then estimate else estimate - 1

/-- The nearest number in double precision, for ratios within its normal range; of two that are
equally near, the one with an even significand. -/
def toDouble (ratio : Ratio) : Ratio :=
  if ratio.numerator = 0 then ratio
  else
    let unit := twoPow (ratio.magnitude - 52)
    mul ⟨(ratio.div unit).rounded, 1⟩ unit

end Ratio
end NameSearch
