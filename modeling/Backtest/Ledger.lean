import Backtest.Ledger.RoundTrip

/-!
# Ledgers

A ledger is what a run leaves behind: its trades and, for every day, what the account was worth at
the close. Both lists only grow at their ends.
-/

namespace Backtest

/-- The account at the close of a day, after that day's trades. -/
structure EquityPoint (α : Type) where
  date : Date
  portfolioValue : α
  price : α
  position : Position
  capital : α
  shares : α
  dailyReturn : α
deriving DecidableEq, Repr

structure Ledger (α : Type) where
  trades : List (Trade α)
  equity : List (EquityPoint α)
deriving DecidableEq, Repr

variable {α : Type} [Scalar α]

/-- The gain of a day relative to the value before it. It is zero where there is nothing to compare
with: on the first day and after a day that ended with nothing. -/
def EquityPoint.returnSince (previous : Option (EquityPoint α)) (value : α) : α :=
  match previous with
  | some point =>
    if point.portfolioValue == 0 then 0
    else (value - point.portfolioValue) / point.portfolioValue
  | none => 0

/-- The point of a day that follows the point `previous`. -/
def EquityPoint.after (previous : Option (EquityPoint α)) (date : Date) (price : α)
    (position : Position) (capital shares : α) : EquityPoint α :=
  let value := capital + shares * price
  { date
    portfolioValue := value
    price
    position
    capital
    shares
    dailyReturn := EquityPoint.returnSince previous value }

namespace Ledger

def empty : Ledger α := ⟨[], []⟩

def recordTrade (ledger : Ledger α) (trade : Trade α) : Ledger α :=
  { ledger with trades := ledger.trades ++ [trade] }

def recordEquity (ledger : Ledger α) (date : Date) (price : α) (position : Position)
    (capital shares : α) : Ledger α :=
  { ledger with
    equity := ledger.equity ++
      [EquityPoint.after ledger.equity.getLast? date price position capital shares] }

def roundTrips (ledger : Ledger α) : List (RoundTrip α) := RoundTrip.ofTrades ledger.trades

end Ledger

end Backtest
