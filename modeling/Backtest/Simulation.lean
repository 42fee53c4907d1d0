import Backtest.Error
import Backtest.Market.Bar
import Backtest.Simulation.Account

/-!
# Simulation

A run goes through the bars of one market. On every day the account trades at the close towards the
position that the signal asks for, and its state after the trades is the day's point of the equity
curve. What is asked for and cannot be entered is asked for again on the next day.
-/

namespace Backtest

/-- The capital a run starts with and what trading costs. -/
structure Terms (α : Type) where
  initialCapital : α
  feeRate : α
  feeConvention : FeeConvention
deriving DecidableEq, Repr

namespace Terms

variable {α : Type} [Scalar α]

def leastCapital : α := ((100 : Nat) : α)

/-- Fee rates stay below this one. -/
def feeRateBound : α := Scalar.ratio 1 10

def defaultCapital : α := ((10000 : Nat) : α)

def defaultFeeRate : α := Scalar.ratio 1 1000

def default : Terms α := ⟨defaultCapital, defaultFeeRate, .absorbed⟩

def check (terms : Terms α) : Except Error Unit :=
  if !Scalar.isFinite terms.initialCapital || terms.initialCapital < leastCapital then
    .error (.validation (.initialCapital (Scalar.text terms.initialCapital)))
  else if !Scalar.isBelow 0 feeRateBound terms.feeRate then
    .error (.validation (.feeRate (Scalar.text terms.feeRate)))
  else .ok ()

end Terms

/-- What a run leaves behind. -/
structure Outcome (α : Type) where
  initialCapital : α
  equity : List (EquityPoint α)
  trades : List (Trade α)
  roundTrips : List (RoundTrip α)
deriving DecidableEq, Repr

/-- The value of the account on the last day. -/
def Outcome.finalValue {α : Type} (outcome : Outcome α) : α :=
  match outcome.equity.getLast? with
  | some point => point.portfolioValue
  | none => outcome.initialCapital

namespace Simulation

variable {α : Type} [Scalar α]

/-- The trades of one day and the point they lead to. -/
structure Day (α : Type) where
  trades : List (Trade α)
  point : EquityPoint α
deriving DecidableEq, Repr

/-- The day of a bar for an account that turns to a target, with the account it leaves. -/
def day (terms : Terms α) (target : Position) (account : Account α)
    (previous : Option (EquityPoint α)) (bar : Bar α) : Account α × Day α :=
  let turn := account.turnTo target terms.feeConvention terms.feeRate bar.date bar.close
  let left := turn.account
  (left,
    ⟨turn.trades, .after previous bar.date bar.close left.position left.capital left.shares⟩)

/-- The days of a run over the given bars, from an account and the point before them. -/
def days (terms : Terms α) (signal : Series Position) (account : Account α)
    (previous : Option (EquityPoint α)) : List (Bar α) → List (Day α)
  | [] => []
  | bar :: rest =>
    let target := (signal.get? bar.date).getD .cash
    let (left, today) := day terms target account previous bar
    today :: days terms signal left (some today.point) rest

/-- The bars can be traded: there are some, their dates ascend, every close is a price, and the
signal has a position for every day. The first of these that fails is reported. -/
def checkBars (bars : List (Bar α)) (signal : Series Position) : Except Error Unit :=
  if bars.isEmpty then .error (.schema .noBars)
  else if !Bar.ascend bars then .error (.schema .barOrder)
  else
    match bars.find? fun bar => !bar.hasValidClose with
    | some bar => .error (.schema (.badClose (Scalar.text bar.close) bar.date))
    | none =>
      match bars.find? fun bar => (signal.get? bar.date).isNone with
      | some bar => .error (.schema (.uncoveredBar bar.date))
      | none => .ok ()

def outcome (terms : Terms α) (bars : List (Bar α)) (signal : Series Position) : Outcome α :=
  let days := days terms signal (.opening terms.initialCapital) none bars
  let trades := days.flatMap Day.trades
  { initialCapital := terms.initialCapital
    equity := days.map Day.point
    trades
    roundTrips := RoundTrip.ofTrades trades }

/-- Trades the signal over the bars. -/
def run (terms : Terms α) (bars : List (Bar α)) (signal : Series Position) :
    Except Error (Outcome α) := do
  terms.check
  checkBars bars signal
  return outcome terms bars signal

end Simulation

end Backtest
