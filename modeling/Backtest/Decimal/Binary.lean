import Backtest.Decimal.Rounding

/-!
# Binary numbers

A 64-bit binary floating-point number seen as what its bits say. Text is written from this view and
read into it, so that no digit depends on a library routine.
-/

namespace Backtest.Decimal

/-- A finite number is `significand * 2 ^ exponent` under its sign. -/
inductive Binary
  | undefined
  | infinite (negative : Bool)
  | finite (negative : Bool) (significand : Nat) (exponent : Int)
deriving DecidableEq, Repr

namespace Binary

def significandBits : Nat := 52

def leastExponent : Int := -1074

/-- The biased exponent that marks infinities and undefined values. -/
def specialExponent : Nat := 2047

def ofBits (bits : UInt64) : Binary :=
  let word := bits.toNat
  let negative := decide (Nat.pow 2 63 ≤ word)
  let biased := word / Nat.pow 2 significandBits % Nat.pow 2 11
  let fraction := word % Nat.pow 2 significandBits
  if biased = specialExponent then
    if fraction = 0 then infinite negative else undefined
  else if biased = 0 then finite negative fraction leastExponent
  else finite negative (Nat.pow 2 significandBits + fraction) (leastExponent + (biased - 1 : Nat))

def ofFloat (value : Float) : Binary := ofBits value.toBits

/-- The greatest `e` with `2 ^ e ≤ numerator / denominator`, both positive. -/
def binaryOrder (numerator denominator : Nat) : Int :=
  let estimate : Int := (numerator.log2 : Int) - (denominator.log2 : Int)
  let (scaled, unit) := scale 2 (-estimate) numerator denominator
  if unit ≤ scaled then estimate else estimate - 1

/-- The bits, sign aside, of the binary number nearest to a quotient of positive naturals, a half
going to the even significand. A significand that rounds up to the next power of two carries into
the exponent by itself, and a result past the largest finite number has the bits of infinity. -/
def nearestBits (numerator denominator : Nat) : Nat :=
  let exponent := max (binaryOrder numerator denominator - significandBits) leastExponent
  let (scaled, unit) := scale 2 (-exponent) numerator denominator
  let significand := divHalfEven scaled unit
  let steps := (exponent - leastExponent).toNat
  min (significand + steps * Nat.pow 2 significandBits)
    (specialExponent * Nat.pow 2 significandBits)

end Binary

end Backtest.Decimal
