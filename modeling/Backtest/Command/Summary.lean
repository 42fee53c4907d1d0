import Backtest.Calendar.DateText
import Backtest.Plan

/-!
# Summaries

The figures of a run, rounded for reading. Ratios that stand for shares are given in percent.
-/

namespace Backtest.Command.Summary

variable {α : Type} [Scalar α]

/-- A figure with two places. -/
def figure (value : α) : String := Scalar.fixedText 2 value

def percent (places : Nat) (value : α) : String :=
  Scalar.fixedText places (value * ((100 : Nat) : α)) ++ "%"

def drawdownLines (drawdown : Drawdown α) : List String :=
  match drawdown.span with
  | some (peak, trough) =>
    [s!"  {peak.text} to {trough.text} ({drawdown.durationDays} days)"]
  | none => []

def performanceLines (performance : Performance α) : List String :=
  [s!"Final Value:      {figure performance.finalValue}",
    s!"Total Return:     {percent 2 performance.totalReturn}",
    s!"CAGR:             {percent 2 performance.annualRate}",
    s!"Volatility:       {percent 2 performance.volatility}",
    s!"Sharpe Ratio:     {figure performance.sharpeRatio}",
    s!"Sortino Ratio:    {figure performance.sortinoRatio}",
    s!"Omega Ratio:      {performance.omegaRatio.textBy figure}",
    s!"Calmar Ratio:     {figure performance.calmarRatio}",
    s!"Max Drawdown:     {percent 1 performance.drawdown.depth}"]
  ++ drawdownLines performance.drawdown ++
  [s!"VaR / CVaR:       {percent 2 performance.valueAtRisk} / "
      ++ percent 2 performance.conditionalValueAtRisk,
    s!"Skew / Kurtosis:  {figure performance.skewness} / {figure performance.kurtosis}",
    s!"Total Trades:     {performance.trades}",
    s!"Round Trips:      {performance.roundTrips}",
    s!"Win Rate:         {percent 1 performance.winRate}",
    s!"Round-Trip Wins:  {percent 1 performance.roundTripWinRate}",
    s!"Profit Factor:    {performance.profitFactor.textBy figure}",
    s!"Commission:       {figure performance.totalCommission}",
    s!"Exposure:         {percent 1 performance.exposure}"]

def weightLine : String × α → String := fun (name, weight) =>
  s!"  {name}: {Scalar.fixedText 3 weight}"

def combinationLines (combination : Combination α) : List String :=
  let names := ", ".intercalate combination.strategies
  let dates := combination.positions.size
  let recovered := combination.recovered
  ["", s!"Aggregation: {combination.method} over {names} ({dates} dates)"]
    ++ (combination.weights.getD []).map weightLine
    ++ (if 0 < recovered then [s!"  {recovered} dates fell back to CASH"] else [])

def lines (name : String) (result : Result α) : List String :=
  ["", s!"=== {name} ==="] ++ performanceLines result.performance
    ++ (result.combination.map combinationLines).getD []

end Backtest.Command.Summary
