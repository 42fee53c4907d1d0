import Backtest.Aggregate.Method

/-!
# Weighted aggregation

Every strategy counts with its share of the total weight. The score of a day is the weighted mean of
the positions, from minus one to one, and a position is taken where the score is clearly off zero.
-/

namespace Backtest.Aggregate

variable {α : Type} [Scalar α]

/-- Scores beyond this distance from zero take a position. -/
def scoreThreshold : α := Scalar.ratio 3 10

/-- The weight of every strategy as given; a strategy that is not listed weighs nothing. -/
def givenWeights (names : List String) : Option (Weights α) → List (String × α)
  | none => names.map fun name => (name, 1)
  | some weights => names.map fun name => (name, (weights.get? name).getD 0)

/-- The weights as shares of their total. The first weight that is no finite number, or is negative,
is an error, and so is a total that is not positive. -/
def normalizedWeights (names : List String) (weights : Option (Weights α)) :
    Except Error (List (String × α)) :=
  let given := givenWeights names weights
  match given.find? fun (_, weight) => !Scalar.isFinite weight || weight < 0 with
  | some (name, weight) => .error (.validation (.badWeight name (Scalar.text weight)))
  | none =>
    let total := Scalar.sum (given.map Prod.snd)
    if total ≤ 0 then .error (.validation .noWeight)
    else .ok (given.map fun (name, weight) => (name, weight / total))

def score (weights : List (String × α)) (row : List Position) : α :=
  Scalar.sum (row.zipWith (fun position (_, weight) => weight * (position.sign : α)) weights)

def positionOfScore (score : α) : Position :=
  if scoreThreshold < score then .long
  else if score < -scoreThreshold then .short
  else .cash

end Backtest.Aggregate
