import Backtest.Decimal.Binary

/-!
# Writing binary numbers in decimal

Two ways to write a binary number. The shortest text has the fewest digits that still read back as
the same number, and among those the nearest to it. The fixed text has a given number of places and
rounds the exact binary value. Both are positional whatever the size of the number.
-/

namespace Backtest.Decimal

/-- Digits with a point before the last `places` of them, filled with zeros on the left so that at
least one digit precedes the point. -/
def pointed (places : Nat) (digits : List Char) : List Char :=
  let padded := List.replicate (places + 1 - digits.length) '0' ++ digits
  let whole := padded.length - places
  padded.take whole ++ '.' :: padded.drop whole

/-- `digits * 10 ^ exponent` without an exponent mark. -/
def positional (digits : Nat) (exponent : Int) : List Char :=
  let figures := Nat.toDigits 10 digits
  if 0 ≤ exponent then figures ++ List.replicate exponent.toNat '0'
  else pointed (-exponent).toNat figures

/-- A positive number `value / unit` among the numbers from `low / unit` to `high / unit` that read
back as it; `closed` tells whether the two ends do so as well. -/
structure Neighbourhood where
  value : Nat
  low : Nat
  high : Nat
  unit : Nat
  closed : Bool
deriving DecidableEq, Repr

namespace Neighbourhood

/-- Half the distance to the next number lies on either side, but only a quarter below a power of
two, where the numbers become twice as dense. The ends belong to the even significand. -/
def ofSignificand (significand : Nat) (exponent : Int) : Neighbourhood :=
  let below := if significand = Nat.pow 2 Binary.significandBits then 1 else 2
  let (step, unit) := scale 2 (exponent - 2) 1 1
  { value := 4 * significand * step
    low := (4 * significand - below) * step
    high := (4 * significand + 2) * step
    unit := unit
    closed := significand % 2 = 0 }

def contains (number : Neighbourhood) (point : Nat) : Bool :=
  if number.closed then number.low ≤ point ∧ point ≤ number.high
  else number.low < point ∧ point < number.high

/-- The neighbourhood measured in units of `10 ^ exponent`: its `unit` is then one step of the
decimal grid with that exponent. -/
def inPowersOfTen (number : Neighbourhood) (exponent : Int) : Neighbourhood :=
  let (factor, unit) := scale 10 (-exponent) 1 1
  { number with
    value := number.value * factor
    low := number.low * factor
    high := number.high * factor
    unit := number.unit * unit }

/-- The point of the grid of multiples of `10 ^ exponent` that reads back as the number, if there is
one. Only the two points beside the number need be tried; of two hits the nearer is taken, and the
upper one when they are equally near. -/
def gridPoint? (number : Neighbourhood) (exponent : Int) : Option Nat :=
  let scaled := number.inPowersOfTen exponent
  let lower := scaled.value / scaled.unit
  let upper := lower + 1
  match scaled.contains (lower * scaled.unit), scaled.contains (upper * scaled.unit) with
  | false, false => none
  | true, false => some lower
  | false, true => some upper
  | true, true =>
    if 2 * (scaled.value - lower * scaled.unit) < scaled.unit then some lower else some upper

end Neighbourhood

/-- A power of ten above the binary number, from `0.30103 > log₁₀ 2`. -/
def decimalOrder (significand : Nat) (exponent : Int) : Int :=
  ((significand.log2 : Int) + 1 + exponent) * 30103 / 100000 + 2

/-- The coarsest decimal grid with a point that reads back as the number gives the fewest digits.
Seventeen digits always suffice, so the search ends before its last grid. -/
def shortest (significand : Nat) (exponent : Int) : Nat × Int :=
  let number := Neighbourhood.ofSignificand significand exponent
  let top := decimalOrder significand exponent
  ((List.range 24).findSome? fun (step : Nat) =>
    (number.gridPoint? (top - step)).map fun digits => (digits, top - step)).getD (0, 0)

/-- The number rounded to a number of decimal places, a half going to the even neighbour. -/
def fixed (places : Nat) (significand : Nat) (exponent : Int) : List Char :=
  let (numerator, denominator) := scale 2 exponent (significand * Nat.pow 10 places) 1
  pointed places (Nat.toDigits 10 (divHalfEven numerator denominator))

namespace Binary

def signed (negative : Bool) (magnitude : List Char) : String :=
  String.ofList (if negative then '-' :: magnitude else magnitude)

/-- How a number is written when its finite magnitude is written by `magnitude`. A zero keeps its
sign, an undefined value has none. -/
def textBy (magnitude : Nat → Int → List Char) : Binary → String
  | undefined => "NaN"
  | infinite negative => signed negative "inf".toList
  | finite negative significand exponent => signed negative (magnitude significand exponent)

def text : Binary → String :=
  textBy fun significand exponent =>
    if significand = 0 then ['0']
    else
      let (digits, power) := shortest significand exponent
      positional digits power

def fixedText (places : Nat) : Binary → String :=
  textBy (fixed places)

end Binary

end Backtest.Decimal
