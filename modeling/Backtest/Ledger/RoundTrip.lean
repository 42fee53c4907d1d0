import Backtest.Ledger.Trade
import Backtest.Scalar

/-!
# Round trips

A round trip is an entry with the exit that closes it. Entries wait in two queues, one for each
direction, and an exit closes the one that has waited longest; an exit without an entry is passed
over, and entries that still wait at the end are not reported.
-/

namespace Backtest

inductive Direction
  | long
  | short
deriving DecidableEq, Repr

def Direction.name : Direction → String
  | long => "LONG"
  | short => "SHORT"

structure RoundTrip (α : Type) where
  entryDate : Date
  exitDate : Date
  entryPrice : α
  exitPrice : α
  /-- The gain in percent of the entry price. -/
  returnPercent : α
  durationDays : Int
  direction : Direction
deriving DecidableEq, Repr

namespace RoundTrip

variable {α : Type} [Scalar α]

/-- The round trip of an entry and its exit. A short gains what the price loses. -/
def close (direction : Direction) (entry exit : Trade α) : RoundTrip α :=
  let change := (exit.price - entry.price) / entry.price * ((100 : Nat) : α)
  { entryDate := entry.date
    exitDate := exit.date
    entryPrice := entry.price
    exitPrice := exit.price
    returnPercent := match direction with
      | .long => change
      | .short => -change
    durationDays := entry.date.daysTo exit.date
    direction }

/-- Matches trades while the entries `longs` and `shorts` wait, the oldest first. -/
def matchFrom (longs shorts : List (Trade α)) : List (Trade α) → List (RoundTrip α)
  | [] => []
  | trade :: rest =>
    match trade.kind, longs, shorts with
    | .buy, _, _ => matchFrom (longs ++ [trade]) shorts rest
    | .shortSell, _, _ => matchFrom longs (shorts ++ [trade]) rest
    | .sell, entry :: longs, _ => close .long entry trade :: matchFrom longs shorts rest
    | .coverShort, _, entry :: shorts => close .short entry trade :: matchFrom longs shorts rest
    | _, _, _ => matchFrom longs shorts rest

def ofTrades (trades : List (Trade α)) : List (RoundTrip α) := matchFrom [] [] trades

end RoundTrip

end Backtest
