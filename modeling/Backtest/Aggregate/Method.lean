import Backtest.Aggregate.Weights
import Backtest.Position
import Backtest.Series

/-!
# Methods of aggregation

Several strategies are combined into one by their weights, by majority, or by a vote formula.
-/

namespace Backtest

/-- The positions of a strategy under its name. -/
structure NamedSignal where
  name : String
  positions : Series Position

namespace Aggregate

inductive Method (α : Type)
  /-- Without weights, every strategy weighs the same. -/
  | weighted (weights : Option (Weights α))
  /-- Without a threshold, the plurality decides; without an exit threshold, half the threshold
  keeps a position. -/
  | majority (threshold exitThreshold : Option α)
  | custom (expression : String)

def Method.name {α : Type} : Method α → String
  | weighted _ => "weighted"
  | majority .. => "majority"
  | custom _ => "custom"

/-- How many strategies hold each position. -/
structure Tally where
  long : Nat
  short : Nat
  cash : Nat
deriving DecidableEq, Repr

namespace Tally

def of (row : List Position) : Tally :=
  { long := row.count .long
    short := row.count .short
    cash := row.count .cash }

/-- The position that more strategies hold than any other; cash if there is none. -/
def plurality (tally : Tally) : Position :=
  if tally.long > tally.short ∧ tally.long > tally.cash then .long
  else if tally.short > tally.long ∧ tally.short > tally.cash then .short
  else .cash

end Tally

end Aggregate

end Backtest
