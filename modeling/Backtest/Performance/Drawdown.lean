import Backtest.Ledger

/-!
# Drawdown

The worst fall of the account's value below its highest value so far, relative to that value.
-/

namespace Backtest

/-- A depth that is not positive and, where there was a fall, the dates of its peak and trough. -/
structure Drawdown (α : Type) where
  depth : α
  span : Option (Date × Date)
deriving DecidableEq, Repr

namespace Drawdown

variable {α : Type} [Scalar α]

def none : Drawdown α := ⟨0, .none⟩

def durationDays (drawdown : Drawdown α) : Int :=
  match drawdown.span with
  | some (peak, trough) => peak.daysTo trough
  | .none => 0

/-- Goes through the points with the highest value so far, its date, and the worst fall so far. A
peak that is not positive has no falls below it. -/
def scan (peak : α) (peakDate : Date) (worst : Drawdown α) : List (EquityPoint α) → Drawdown α
  | [] => worst
  | point :: rest =>
    if peak < point.portfolioValue then scan point.portfolioValue point.date worst rest
    else if peak ≤ 0 then scan peak peakDate worst rest
    else
      let depth := (point.portfolioValue - peak) / peak
      if depth < worst.depth then scan peak peakDate ⟨depth, some (peakDate, point.date)⟩ rest
      else scan peak peakDate worst rest

/-- The worst fall of an equity curve; of equal ones the first. -/
def ofCurve (curve : List (EquityPoint α)) : Drawdown α :=
  match curve with
  | [] => none
  | first :: _ => scan first.portfolioValue first.date none curve

end Drawdown

end Backtest
