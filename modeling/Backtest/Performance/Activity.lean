import Backtest.Ledger
import Backtest.Performance.Returns

/-!
# Trading activity

How often a run won, for how long it held its positions, and what it paid.
-/

namespace Backtest.Activity

variable {α : Type} [Scalar α]

/-- The share of a list's members that pass a test; of an empty list, none. -/
def share {β : Type} (test : β → Bool) (members : List β) : α :=
  if members.isEmpty then 0
  else ((members.filter test).length : α) / (members.length : α)

/-- The share of long exits that brought in money, whatever the entry had cost. -/
def winRate (trades : List (Trade α)) : α :=
  share (fun trade => (0 : α) < trade.value) (trades.filter fun trade => trade.kind = .sell)

def roundTripWinRate (roundTrips : List (RoundTrip α)) : α :=
  share (fun trip => (0 : α) < trip.returnPercent) roundTrips

/-- The gains over the losses of the round trips, in percent of their entries. -/
def profitFactor (roundTrips : List (RoundTrip α)) : Returns.GainRatio α :=
  .of (roundTrips.map RoundTrip.returnPercent)

def averageDuration (roundTrips : List (RoundTrip α)) : α :=
  if roundTrips.isEmpty then 0
  else Scalar.sum (roundTrips.map fun trip => (trip.durationDays : α)) / (roundTrips.length : α)

/-- The share of days on which the account held a position. -/
def exposure (curve : List (EquityPoint α)) : α := share (fun point => point.position.isInvested) curve

def totalCommission (trades : List (Trade α)) : α := Scalar.sum (trades.map Trade.commission)

end Backtest.Activity
