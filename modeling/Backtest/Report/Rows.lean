import Backtest.Calendar.DateText
import Backtest.Plan
import Backtest.Report.Paths

/-!
# Rows of a report

What each of the four tables holds. Numbers are written in full, so that they read back unchanged.
No cell contains a comma, a quote or a line end, and cells are written as they are.
-/

namespace Backtest.Report

variable {α : Type} [Scalar α]

def equityRow (point : EquityPoint α) : List String :=
  [point.date.text, Scalar.text point.portfolioValue, Scalar.text point.price,
    toString point.position.sign, Scalar.text point.capital, Scalar.text point.shares,
    Scalar.text point.dailyReturn]

def tradeRow (trade : Trade α) : List String :=
  [trade.date.text, trade.kind.name, Scalar.text trade.price, Scalar.text trade.quantity,
    Scalar.text trade.value, Scalar.text trade.commission, Scalar.text trade.capitalAfter,
    trade.positionAfter.name]

def roundTripRow (trip : RoundTrip α) : List String :=
  [trip.entryDate.text, trip.exitDate.text, trip.direction.name, Scalar.text trip.entryPrice,
    Scalar.text trip.exitPrice, Scalar.text trip.returnPercent, toString trip.durationDays]

/-- The text of a date, empty where there is none. -/
def dateOrBlank : Option Date → String
  | some date => date.text
  | none => ""

def metricRows (performance : Performance α) : List (List String) :=
  let drawdown := performance.drawdown
  [["total_return", Scalar.text performance.totalReturn],
    ["cagr", Scalar.text performance.annualRate],
    ["volatility", Scalar.text performance.volatility],
    ["sharpe_ratio", Scalar.text performance.sharpeRatio],
    ["sortino_ratio", Scalar.text performance.sortinoRatio],
    ["omega_ratio", performance.omegaRatio.textBy Scalar.text],
    ["calmar_ratio", Scalar.text performance.calmarRatio],
    ["max_drawdown", Scalar.text drawdown.depth],
    ["drawdown_peak", dateOrBlank (drawdown.span.map Prod.fst)],
    ["drawdown_trough", dateOrBlank (drawdown.span.map Prod.snd)],
    ["drawdown_days", toString drawdown.durationDays],
    ["value_at_risk", Scalar.text performance.valueAtRisk],
    ["conditional_value_at_risk", Scalar.text performance.conditionalValueAtRisk],
    ["skewness", Scalar.text performance.skewness],
    ["kurtosis", Scalar.text performance.kurtosis],
    ["win_rate", Scalar.text performance.winRate],
    ["round_trip_win_rate", Scalar.text performance.roundTripWinRate],
    ["profit_factor", performance.profitFactor.textBy Scalar.text],
    ["avg_trade_duration", Scalar.text performance.averageDuration],
    ["total_trades", toString performance.trades],
    ["round_trips", toString performance.roundTrips],
    ["final_value", Scalar.text performance.finalValue],
    ["total_commission", Scalar.text performance.totalCommission],
    ["exposure", Scalar.text performance.exposure]]

namespace Table

def header : Table → List String
  | equity =>
    ["date", "portfolio_value", "price", "position", "capital", "shares", "daily_return"]
  | trades =>
    ["date", "kind", "price", "quantity", "value", "commission", "capital_after",
      "position_after"]
  | roundTrips =>
    ["entry_date", "exit_date", "direction", "entry_price", "exit_price", "return_pct",
      "duration_days"]
  | metrics => ["metric", "value"]

def rows (result : Result α) : Table → List (List String)
  | equity => result.outcome.equity.map equityRow
  | trades => result.outcome.trades.map tradeRow
  | roundTrips => result.outcome.roundTrips.map roundTripRow
  | metrics => metricRows result.performance

def line (cells : List String) : String := ",".intercalate cells ++ "\n"

def text (table : Table) (result : Result α) : String :=
  String.join ((table.header :: table.rows result).map line)

end Table

end Backtest.Report
