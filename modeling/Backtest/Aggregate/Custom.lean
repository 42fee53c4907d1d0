import Backtest.Aggregate.Method
import Backtest.Vote.Parser

/-!
# Aggregation by a vote

A position is taken on the days on which the vote holds. It is short where more of the strategies
that the vote mentions are short than long. A day on which the vote cannot be decided, because it
reaches a strategy that is not among those combined, is spent in cash and counted.
-/

namespace Backtest.Aggregate

/-- The positions of a day by the strategies' names. -/
def positionOn (names : List String) (row : List Position) (name : String) : Option Position :=
  (names.zip row).lookup name

/-- The position that a vote takes on a day, if it can be decided. -/
def customPosition? (vote : Vote) (names : List String) (row : List Position) : Option Position :=
  let positions := positionOn names row
  match vote.eval positions with
  | .error _ => none
  | .ok false => some .cash
  | .ok true =>
    let tally := Tally.of (vote.strategies.filterMap positions)
    some (if tally.long < tally.short then .short else .long)

end Backtest.Aggregate
