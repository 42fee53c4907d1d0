import Backtest.Aggregate.Custom
import Backtest.Aggregate.Majority
import Backtest.Aggregate.Weighted

/-!
# Aggregation

Signals of several strategies are combined on the days that all of them have. Every such day gives a
row of positions, one for each strategy in their order, and the method turns the rows into one signal.
-/

namespace Backtest

/-- A combined signal and how it came about. -/
structure Combination (α : Type) where
  method : String
  strategies : List String
  positions : Series Position
  /-- The shares of the total weight, where the method has weights. -/
  weights : Option (List (String × α))
  scores : Option (Series α)
  /-- The number of days on which the method could not be decided. -/
  recovered : Nat

namespace Aggregate

/-- The first name that stands in a list for the second time. -/
def firstRepeated? (seen : List String) : List String → Option String
  | [] => none
  | name :: rest => if seen.contains name then some name else firstRepeated? (name :: seen) rest

/-- The rows of positions on the days that all signals have. -/
def rows (signals : List NamedSignal) : Series (List Position) :=
  .onAxis (Series.commonAxis (signals.map NamedSignal.positions)) fun date =>
    signals.map fun signal => (signal.positions.get? date).getD .cash

variable {α : Type} [Scalar α]

def combineRows (names : List String) (rows : Series (List Position)) (method : Method α) :
    Except Error (Combination α) := do
  let plain (positions : Series Position) (recovered : Nat) : Combination α :=
    { method := method.name
      strategies := names
      positions
      weights := none
      scores := none
      recovered }
  match method with
  | .weighted weights =>
    let weights ← normalizedWeights names weights
    let scores := rows.map (score weights)
    return { plain (scores.map positionOfScore) 0 with weights := some weights, scores := some scores }
  | .majority none _ => return plain (rows.map fun row => (Tally.of row).plurality) 0
  | .majority (some threshold) exitThreshold =>
    let exit := exitThreshold.getD (threshold / ((2 : Nat) : α))
    checkThresholds threshold exit
    return plain (rows.scan (majorityStep threshold exit) .cash) 0
  | .custom expression =>
    let vote ← (Vote.parse expression).mapError .formula
    let decided := rows.map (customPosition? vote names)
    return plain (decided.map fun position => position.getD .cash)
      (decided.values.countP Option.isNone)

/-- Combines signals under distinct names. -/
def combine (signals : List NamedSignal) (method : Method α) : Except Error (Combination α) :=
  let names := signals.map NamedSignal.name
  if signals.isEmpty then .error (.validation .noSignals)
  else
    match firstRepeated? [] names with
    | some name => .error (.validation (.duplicateStrategy name))
    | none => combineRows names (rows signals) method

end Aggregate

end Backtest
