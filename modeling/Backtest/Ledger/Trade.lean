import Backtest.Calendar.Date
import Backtest.Position

/-!
# Trades

A trade is one execution at the close of a day. It enters or leaves a long or a short position and
records what the account holds afterwards.
-/

namespace Backtest

inductive Trade.Kind
  | buy
  | sell
  | shortSell
  | coverShort
deriving DecidableEq, Repr

def Trade.Kind.name : Trade.Kind → String
  | buy => "BUY"
  | sell => "SELL"
  | shortSell => "SHORT_SELL"
  | coverShort => "COVER_SHORT"

structure Trade (α : Type) where
  date : Date
  kind : Trade.Kind
  price : α
  /-- The number of shares, never negative. -/
  quantity : α
  value : α
  commission : α
  capitalAfter : α
  positionAfter : Position
deriving DecidableEq, Repr

end Backtest
