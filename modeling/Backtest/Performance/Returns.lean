import Backtest.Scalar

/-!
# Statistics of daily returns

The average return, how much the returns vary, and how the average compares with the variation. A
year has 252 trading days. A ratio whose denominator is zero counts as zero.
-/

namespace Backtest.Returns

variable {α : Type} [Scalar α]

def tradingDays : α := ((252 : Nat) : α)

def count (returns : List α) : α := (returns.length : α)

def mean (returns : List α) : α :=
  if returns.isEmpty then 0 else Scalar.sum returns / count returns

/-- Gains in proportion to losses; without any loss there is no proportion. -/
inductive GainRatio (α : Type)
  | finite (value : α)
  | unbounded
deriving DecidableEq, Repr

namespace GainRatio

def ofTotals (gains losses : α) : GainRatio α :=
  if 0 < losses then finite (gains / losses)
  else if 0 < gains then unbounded
  else finite 0

/-- The positive amounts over the negative ones. -/
def of (amounts : List α) : GainRatio α :=
  ofTotals (Scalar.sum (amounts.filter fun amount => 0 < amount))
    (Scalar.sum ((amounts.filter fun amount => amount < 0).map Scalar.magnitude))

def textBy (text : α → String) : GainRatio α → String
  | finite value => text value
  | unbounded => "inf"

end GainRatio

/-- The gains over the losses of the days. -/
def omegaRatio (returns : List α) : GainRatio α := .of returns

variable [Roots α]

/-- The standard deviation of a sample; zero below two observations. -/
def deviation (returns : List α) : α :=
  if returns.length < 2 then 0
  else
    let centre := mean returns
    let squares := returns.map fun value => (value - centre) * (value - centre)
    Roots.sqrt (Scalar.sum squares / ((returns.length - 1 : Nat) : α))

def yearlyFactor : α := Roots.sqrt tradingDays

def volatility (returns : List α) : α := deviation returns * yearlyFactor

/-- The average return above the riskless one, relative to the deviation. -/
def sharpeRatio (returns : List α) (riskFreeRate : α) : α :=
  let spread := deviation returns
  if spread == 0 then 0
  else (mean returns - riskFreeRate / tradingDays) / spread * yearlyFactor

/-- Like the Sharpe ratio, but only returns below the riskless one count as variation. -/
def sortinoRatio (returns : List α) (riskFreeRate : α) : α :=
  if returns.isEmpty then 0
  else
    let target := riskFreeRate / tradingDays
    let shortfalls := returns.map fun value =>
      let shortfall := if value - target < 0 then value - target else 0
      shortfall * shortfall
    let spread := Roots.sqrt (Scalar.sum shortfalls / count returns)
    if spread == 0 then 0 else (mean returns - target) / spread * yearlyFactor

end Backtest.Returns
