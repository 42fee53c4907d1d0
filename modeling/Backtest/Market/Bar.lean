import Backtest.Calendar.Date
import Backtest.Scalar

/-!
# Price bars
-/

namespace Backtest

/-- The prices and the volume of one day. -/
structure Bar (α : Type) where
  date : Date
  opening : α
  high : α
  low : α
  close : α
  volume : α
deriving DecidableEq, Repr

namespace Bar

variable {α : Type} [Scalar α]

/-- A day can be traded when its close is a finite and positive price. -/
def hasValidClose (bar : Bar α) : Bool := Scalar.isFinite bar.close && (0 : α) < bar.close

/-- The dates of the bars ascend, so no date has two bars. -/
def ascend : List (Bar α) → Bool
  | first :: second :: rest => first.date < second.date && ascend (second :: rest)
  | _ => true

end Bar

end Backtest
