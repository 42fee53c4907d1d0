import Backtest.Aggregate.Method

/-!
# Majority with a threshold

A direction is taken when the share of strategies that hold it reaches the threshold and exceeds the
share of the opposite one. Once taken it is kept while its share stays at the exit threshold or
above, unless the opposite direction is taken.
-/

namespace Backtest.Aggregate

variable {α : Type} [Scalar α]

def longShare (row : List Position) : α := ((Tally.of row).long : α) / (row.length : α)

def shortShare (row : List Position) : α := ((Tally.of row).short : α) / (row.length : α)

/-- The position after a row of positions, from the position held before it. -/
def majorityStep (threshold exit : α) (held : Position) (row : List Position) : Position :=
  let long : α := longShare row
  let short : α := shortShare row
  if threshold ≤ long ∧ short < long then .long
  else if threshold ≤ short ∧ long < short then .short
  else
    match held with
    | .long => if exit ≤ long then .long else .cash
    | .short => if exit ≤ short then .short else .cash
    | .cash => .cash

/-- The threshold is a positive share and the exit threshold no more than it. -/
def checkThresholds (threshold exit : α) : Except Error Unit :=
  if !(0 < threshold && threshold ≤ 1) then
    .error (.validation (.threshold (Scalar.text threshold)))
  else if !Scalar.isWithin 0 threshold exit then
    .error (.validation (.exitThreshold (Scalar.text threshold) (Scalar.text exit)))
  else .ok ()

end Backtest.Aggregate
