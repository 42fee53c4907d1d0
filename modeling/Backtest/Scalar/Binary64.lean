import Backtest.Scalar
import Backtest.Decimal.Shortest

/-!
# Binary scalars

The scalars of a run: 64-bit binary floating-point numbers, rounded after every operation. An
undefined number has a sign like any other, which nothing but the order of the numbers shows, and a
`Float` does not have it. So it is kept beside the value.
-/

namespace Backtest

structure Binary64 where
  value : Float
  /-- The sign of an undefined number. The other numbers have theirs in the value. -/
  negative : Bool

namespace Binary64

def isUndefined (number : Binary64) : Bool := number.value.isNaN

/-- An operation's result. An undefined operand is passed on, the first one where there are two, and
what is undefined without such an operand is negative. -/
def ofOperation (operands : List Binary64) (value : Float) : Binary64 :=
  if value.isNaN then (operands.find? isUndefined).getD ⟨value, true⟩ else ⟨value, false⟩

def ofNumeral (numeral : Decimal.Numeral) : Binary64 := ⟨numeral.toFloat, false⟩

/-- The place of a number in the total order: its bits, with negative numbers counted downwards.
Minus zero comes before zero, and undefined numbers stand at the two ends. -/
def orderKey (number : Binary64) : Int :=
  let word := number.value.toBits.toNat
  if number.isUndefined then if number.negative then -word else word
  else if word < Nat.pow 2 63 then word
  else -(word - Nat.pow 2 63 : Nat) - 1

def view (number : Binary64) : Decimal.Binary := .ofFloat number.value

end Binary64

open Binary64

instance : Scalar Binary64 where
  zero := ⟨0, false⟩
  one := ⟨1, false⟩
  natCast value := ⟨Float.ofNat value, false⟩
  intCast value := ⟨Float.ofInt value, false⟩
  add left right := ofOperation [left, right] (left.value + right.value)
  sub left right := ofOperation [left, right] (left.value - right.value)
  mul left right := ofOperation [left, right] (left.value * right.value)
  div left right := ofOperation [left, right] (left.value / right.value)
  neg number := ⟨-number.value, !number.negative⟩
  lt left right := left.value < right.value
  le left right := left.value ≤ right.value
  beq left right := left.value == right.value
  decidableLT left right := inferInstanceAs (Decidable (left.value < right.value))
  decidableLE left right := inferInstanceAs (Decidable (left.value ≤ right.value))
  magnitude number := ⟨number.value.abs, false⟩
  isFinite number := number.value.isFinite
  precedes left right := orderKey left ≤ orderKey right
  floorNat number := number.value.floor.toUInt64.toNat
  ceilNat number := number.value.ceil.toUInt64.toNat
  ofNumeral? numeral := some (ofNumeral numeral)
  text number := number.view.text
  fixedText places number := number.view.fixedText places

instance : Roots Binary64 where
  sqrt number := ofOperation [number] number.value.sqrt
  power base exponent := ofOperation [base, exponent] (base.value.pow exponent.value)

end Backtest
