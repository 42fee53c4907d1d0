import Backtest.Calendar.Date
import Backtest.Scalar

/-!
# Growth

How much a run gained in all and per year. Years are of 365.25 calendar days.
-/

namespace Backtest.Growth

variable {α : Type} [Scalar α]

def daysPerYear : α := Scalar.ratio 36525 100

def totalReturn (initial final : α) : α :=
  if 0 < initial then final / initial - 1 else 0

/-- The yearly rate that leads from the first value to the last. Losing everything is a rate of
minus one; without time or without capital there is no growth. -/
def annualRate [Roots α] (initial final : α) (start finish : Date) : α :=
  let days := start.daysTo finish
  if days ≤ 0 ∨ initial ≤ 0 then 0
  else if final ≤ 0 then -1
  else
    let years : α := (days : α) / daysPerYear
    Roots.power (final / initial) (1 / years) - 1

/-- The yearly rate relative to the worst drawdown, which is negative. -/
def calmarRatio (annualRate drawdown : α) : α :=
  if drawdown < 0 then annualRate / Scalar.magnitude drawdown else 0

end Backtest.Growth
