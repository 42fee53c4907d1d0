import Backtest.Decimal.Numeral

/-!
# Scalars

Prices, capital, weights and returns are scalars. Every rule of the library is written once, over
any type of scalars, and is read in two ways: binary numbers are what a run computes with, and
rational numbers are what its accounting laws are stated in. The class therefore lists operations
and no laws, because rounding breaks most of them.
-/

namespace Backtest

class Scalar (α : Type) extends Zero α, One α, NatCast α, IntCast α, Add α, Sub α, Mul α, Div α,
    Neg α, LT α, LE α, BEq α where
  decidableLT : DecidableLT α
  decidableLE : DecidableLE α
  /-- The distance to zero. -/
  magnitude : α → α
  isFinite : α → Bool
  /-- A total order for sorting, in which infinite and undefined scalars have their place too. -/
  precedes : α → α → Bool
  /-- The greatest natural that is not above the scalar; zero if there is none. -/
  floorNat : α → Nat
  /-- The least natural that is not below the scalar; zero if the scalar is undefined. -/
  ceilNat : α → Nat
  /-- The scalar that a numeral stands for, if the scalars have it. -/
  ofNumeral? : Decimal.Numeral → Option α
  text : α → String
  fixedText : Nat → α → String

instance instDecidableLTOfScalar {α : Type} [Scalar α] : DecidableLT α := Scalar.decidableLT

instance instDecidableLEOfScalar {α : Type} [Scalar α] : DecidableLE α := Scalar.decidableLE

/-- The two functions of the statistics that are not rational. -/
class Roots (α : Type) where
  sqrt : α → α
  power : α → α → α

namespace Scalar

variable {α : Type} [Scalar α]

/-- The quotient of two naturals, for the constants that are not whole. -/
def ratio (numerator denominator : Nat) : α := (numerator : α) / (denominator : α)

/-- Adds from left to right. It starts from minus zero, which leaves every first term as it is. -/
def sum (terms : List α) : α := terms.foldl (· + ·) (-0)

/-- The scalar that a text stands for. -/
def ofText? (text : String) : Option α := (Decimal.Numeral.ofText? text).bind ofNumeral?

/-- `low ≤ value ≤ high`, which an undefined scalar never satisfies. -/
def isWithin (low high value : α) : Bool := low ≤ value && value ≤ high

/-- `low ≤ value < high`. -/
def isBelow (low high value : α) : Bool := low ≤ value && value < high

/-- The point of the interval nearest to a scalar. -/
def clamp (low high value : α) : α :=
  if value < low then low else if high < value then high else value

end Scalar

end Backtest
