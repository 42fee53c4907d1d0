/-!
# Rounding a quotient

A quotient of naturals rounded to the nearest natural, a half going to the even neighbour. Both
directions between decimal and binary numbers come down to this one step: a decimal is read into the
nearest binary value, and a binary value is written to a fixed number of places.
-/

namespace Backtest.Decimal

/-- The natural nearest to `numerator / denominator`; of two equally near ones, the even one. -/
def divHalfEven (numerator denominator : Nat) : Nat :=
  let quotient := numerator / denominator
  let twice := 2 * (numerator % denominator)
  if twice < denominator then quotient
  else if denominator < twice then quotient + 1
  else quotient + quotient % 2

/-- `numerator / denominator` scaled by `base ^ exponent`, as a pair of naturals. -/
def scale (base : Nat) (exponent : Int) (numerator denominator : Nat) : Nat × Nat :=
  if 0 ≤ exponent then (numerator * Nat.pow base exponent.toNat, denominator)
  else (numerator, denominator * Nat.pow base (-exponent).toNat)

end Backtest.Decimal
