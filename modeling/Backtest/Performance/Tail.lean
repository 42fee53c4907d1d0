import Backtest.Performance.Returns

/-!
# Value at risk

The value at risk is a low quantile of the daily returns, interpolated between the two returns next
to it in order. The conditional one is the mean of the returns that are no better.
-/

namespace Backtest.Returns

variable {α : Type} [Scalar α]

def sorted (returns : List α) : List α := returns.mergeSort Scalar.precedes

/-- The place of the quantile in the sorted returns, a number between two whole places. -/
def quantilePlace (returns : List α) (confidence : α) : α :=
  ((returns.length - 1 : Nat) : α) * Scalar.clamp 0 1 (1 - confidence)

/-- The place of the return next below the quantile. -/
def lowerPlace (returns : List α) (confidence : α) : Nat :=
  Scalar.floorNat (quantilePlace returns confidence)

/-- The place of the return next above the quantile. -/
def upperPlace (returns : List α) (confidence : α) : Nat :=
  Scalar.ceilNat (quantilePlace returns confidence)

def valueAtRisk (returns : List α) (confidence : α) : α :=
  if returns.isEmpty then 0
  else
    let ordered := sorted returns
    let lower := lowerPlace returns confidence
    let low := ordered.getD lower 0
    let high := ordered.getD (upperPlace returns confidence) 0
    low + (quantilePlace returns confidence - (lower : α)) * (high - low)

def conditionalValueAtRisk (returns : List α) (confidence : α) : α :=
  let limit := valueAtRisk returns confidence
  let tail := returns.filter fun value => value ≤ limit
  if tail.isEmpty then limit else mean tail

end Backtest.Returns
