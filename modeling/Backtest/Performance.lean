import Backtest.Performance.Activity
import Backtest.Performance.Drawdown
import Backtest.Performance.Growth
import Backtest.Performance.Shape
import Backtest.Performance.Tail
import Backtest.Simulation

/-!
# Performance

The figures by which a run is judged, computed from what it left behind.
-/

namespace Backtest

/-- The yearly return without risk, and the confidence of the value at risk. -/
structure RiskTerms (α : Type) where
  riskFreeRate : α
  varConfidence : α
deriving DecidableEq, Repr

namespace RiskTerms

variable {α : Type} [Scalar α]

def defaultRiskFreeRate : α := 0

def defaultVarConfidence : α := Scalar.ratio 95 100

def default : RiskTerms α := ⟨defaultRiskFreeRate, defaultVarConfidence⟩

end RiskTerms

structure Performance (α : Type) where
  totalReturn : α
  annualRate : α
  volatility : α
  sharpeRatio : α
  sortinoRatio : α
  omegaRatio : Returns.GainRatio α
  calmarRatio : α
  drawdown : Drawdown α
  valueAtRisk : α
  conditionalValueAtRisk : α
  skewness : α
  kurtosis : α
  winRate : α
  roundTripWinRate : α
  profitFactor : Returns.GainRatio α
  averageDuration : α
  trades : Nat
  roundTrips : Nat
  finalValue : α
  totalCommission : α
  exposure : α
deriving DecidableEq, Repr

namespace Performance

variable {α : Type} [Scalar α]

/-- The returns from the second day on; the first has nothing before it. -/
def dailyReturns (curve : List (EquityPoint α)) : List α :=
  (curve.drop 1).map EquityPoint.dailyReturn

def annualRateOf [Roots α] (outcome : Outcome α) : α :=
  match outcome.equity.head?, outcome.equity.getLast? with
  | some first, some last =>
    Growth.annualRate outcome.initialCapital outcome.finalValue first.date last.date
  | _, _ => 0

def ofOutcome [Roots α] (outcome : Outcome α) (risk : RiskTerms α) : Performance α :=
  let returns := dailyReturns outcome.equity
  let annualRate := annualRateOf outcome
  let drawdown := Drawdown.ofCurve outcome.equity
  { totalReturn := Growth.totalReturn outcome.initialCapital outcome.finalValue
    annualRate
    volatility := Returns.volatility returns
    sharpeRatio := Returns.sharpeRatio returns risk.riskFreeRate
    sortinoRatio := Returns.sortinoRatio returns risk.riskFreeRate
    omegaRatio := Returns.omegaRatio returns
    calmarRatio := Growth.calmarRatio annualRate drawdown.depth
    drawdown
    valueAtRisk := Returns.valueAtRisk returns risk.varConfidence
    conditionalValueAtRisk := Returns.conditionalValueAtRisk returns risk.varConfidence
    skewness := Returns.skewness returns
    kurtosis := Returns.kurtosis returns
    winRate := Activity.winRate outcome.trades
    roundTripWinRate := Activity.roundTripWinRate outcome.roundTrips
    profitFactor := Activity.profitFactor outcome.roundTrips
    averageDuration := Activity.averageDuration outcome.roundTrips
    trades := outcome.trades.length
    roundTrips := outcome.roundTrips.length
    finalValue := outcome.finalValue
    totalCommission := Activity.totalCommission outcome.trades
    exposure := Activity.exposure outcome.equity }

end Performance

end Backtest
