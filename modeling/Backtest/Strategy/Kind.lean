import Backtest.Text.Blank
import Backtest.Text.LowerCase

/-!
# Kinds of strategies

A strategy of the first kind is long or in cash, one of the second kind may be short as well.
-/

namespace Backtest.Strategy

inductive Kind
  | longCash
  | longShort
deriving DecidableEq, Repr

namespace Kind

def name : Kind → String
  | longCash => "long_cash"
  | longShort => "long_short"

/-- The kind that a name stands for, blanks around it and its case aside; otherwise the name as it
was compared. -/
def ofText (text : String) : Except String Kind :=
  match Text.lower (Text.trim text) with
  | "long_cash" => .ok longCash
  | "long_short" => .ok longShort
  | other => .error other

def unknownMessage (text : String) : String :=
  s!"unknown strategy type '{text}' (expected long_cash or long_short)"

end Kind

end Backtest.Strategy
