import Backtest.Scalar
import Backtest.Decimal.Shortest

/-!
# Exact scalars

Rational numbers as scalars. Nothing is rounded, so the laws of a run's accounting hold exactly; the
infinite and the undefined numerals have no value here.
-/

namespace Backtest

/-- The rational that a finite numeral stands for. -/
def rationalOf? : Decimal.Numeral → Option Rat
  | .finite negative digits exponent =>
    let (numerator, denominator) := Decimal.scale 10 exponent digits 1
    let value := (numerator : Rat) / (denominator : Rat)
    some (if negative then -value else value)
  | _ => none

/-- A rational rounded to a number of decimal places. -/
def fixedRational (places : Nat) (value : Rat) : String :=
  let rounded := Decimal.divHalfEven (value.num.natAbs * Nat.pow 10 places) value.den
  Decimal.Binary.signed (decide (value < 0)) (Decimal.pointed places (Nat.toDigits 10 rounded))

instance : Scalar Rat where
  zero := 0
  one := 1
  decidableLT := inferInstance
  decidableLE := inferInstance
  magnitude value := if value < 0 then -value else value
  isFinite _ := true
  precedes left right := left ≤ right
  floorNat value := value.floor.toNat
  ceilNat value := value.ceil.toNat
  ofNumeral? := rationalOf?
  text value := toString value
  fixedText := fixedRational

end Backtest
