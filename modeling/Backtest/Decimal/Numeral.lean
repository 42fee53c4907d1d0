import Backtest.Decimal.Binary

/-!
# Decimal numerals

What a number looks like in a configuration or a table: an optional sign, then digits with at most
one point and at least one digit beside it, then an optional power of ten; or one of the words for
the infinite and the undefined value, in any case. Nothing else is a numeral, blanks included.
-/

namespace Backtest.Decimal

/-- A finite numeral is `digits * 10 ^ exponent` under its sign. -/
inductive Numeral
  | undefined
  | infinite (negative : Bool)
  | finite (negative : Bool) (digits : Nat) (exponent : Int)
deriving DecidableEq, Repr

namespace Numeral

/-- The number that a run of decimal digits stands for. -/
def valueOfDigits (digits : List Char) : Nat :=
  digits.foldl (fun value digit => 10 * value + (digit.toNat - '0'.toNat)) 0

/-- Splits off a leading sign; the flag tells a minus. -/
def splitSign : List Char → Bool × List Char
  | '-' :: rest => (true, rest)
  | '+' :: rest => (false, rest)
  | text => (false, text)

/-- The power of ten that follows the digits: nothing, or `e` with a signed whole number. -/
def exponentOf? : List Char → Option Int
  | [] => some 0
  | mark :: rest =>
    let (negative, digits) := splitSign rest
    if (mark = 'e' ∨ mark = 'E') ∧ digits ≠ [] ∧ digits.all Char.isDigit then
      let value : Int := valueOfDigits digits
      some (if negative then -value else value)
    else none

/-- The digits behind a decimal point, and what follows them. -/
def splitFraction : List Char → List Char × List Char
  | '.' :: rest => (rest.takeWhile Char.isDigit, rest.dropWhile Char.isDigit)
  | text => ([], text)

/-- An unsigned numeral made of digits. -/
def magnitudeOf? (text : List Char) : Option (Nat × Int) :=
  let whole := text.takeWhile Char.isDigit
  let (fraction, rest) := splitFraction (text.dropWhile Char.isDigit)
  if whole = [] ∧ fraction = [] then none
  else (exponentOf? rest).map fun exponent =>
    (valueOfDigits (whole ++ fraction), exponent - fraction.length)

def ofChars? (text : List Char) : Option Numeral :=
  let (negative, unsigned) := splitSign text
  let word := unsigned.map Char.toLower
  if word = "nan".toList then some undefined
  else if word = "inf".toList ∨ word = "infinity".toList then some (infinite negative)
  else (magnitudeOf? unsigned).map fun (digits, exponent) => finite negative digits exponent

def ofText? (text : String) : Option Numeral := ofChars? text.toList

/-- The bits, sign aside, of the binary number nearest to `digits * 10 ^ exponent`. Numerals far
outside the range of binary numbers are settled by their length, before any power is formed. -/
def magnitudeBits (digits : Nat) (exponent : Int) : Nat :=
  let order : Int := (Nat.toDigits 10 digits).length + exponent
  if digits = 0 ∨ order < -400 then 0
  else if 400 < order then Binary.specialExponent * Nat.pow 2 Binary.significandBits
  else
    let (numerator, denominator) := scale 10 exponent digits 1
    Binary.nearestBits numerator denominator

/-- The binary number nearest to a numeral. -/
def toFloat : Numeral → Float
  | undefined => Float.ofBits (0x7ff8000000000000 : UInt64)
  | infinite negative => signed negative (Binary.specialExponent * Nat.pow 2 Binary.significandBits)
  | finite negative digits exponent => signed negative (magnitudeBits digits exponent)
where
  signed (negative : Bool) (bits : Nat) : Float :=
    Float.ofBits (UInt64.ofNat (bits + if negative then Nat.pow 2 63 else 0))

end Numeral

end Backtest.Decimal
