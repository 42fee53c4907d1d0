import Backtest.Text.Blank
import Backtest.Text.LowerCase

/-!
# Fee conventions

How the fee of a long entry is charged. It is absorbed when the commission is taken out of the
capital before the shares are counted. The legacy convention differs only where a short turns into a
long on one day: there the shares are counted at the price plus the fee.
-/

namespace Backtest

inductive FeeConvention
  | absorbed
  | legacy
deriving DecidableEq, Repr

namespace FeeConvention

def name : FeeConvention → String
  | absorbed => "absorbed"
  | legacy => "legacy"

/-- The convention that a name stands for, blanks around it and its case aside; otherwise the name
as it was compared. -/
def ofText (text : String) : Except String FeeConvention :=
  match Text.lower (Text.trim text) with
  | "absorbed" => .ok absorbed
  | "legacy" => .ok legacy
  | other => .error other

def unknownMessage (text : String) : String :=
  s!"unknown fee convention '{text}' (expected absorbed or legacy)"

end FeeConvention

end Backtest
