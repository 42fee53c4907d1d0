/-!
# Positions

What a strategy or an account holds on a day: it is long, in cash, or short. A position counts as
`1`, `0` or `-1` wherever it is written or weighed.
-/

namespace Backtest

inductive Position
  | long
  | cash
  | short
deriving DecidableEq, Repr

namespace Position

def sign : Position → Int
  | long => 1
  | cash => 0
  | short => -1

def ofSign? (sign : Int) : Option Position :=
  if sign = 1 then some long
  else if sign = 0 then some cash
  else if sign = -1 then some short
  else none

def name : Position → String
  | long => "LONG"
  | cash => "CASH"
  | short => "SHORT"

def isInvested (position : Position) : Bool := position ≠ cash

@[simp]
theorem ofSign?_sign (position : Position) : ofSign? position.sign = some position := by
  cases position <;> rfl

end Position

end Backtest
