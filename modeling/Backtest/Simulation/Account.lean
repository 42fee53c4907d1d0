import Backtest.FeeConvention
import Backtest.Ledger

/-!
# Accounts

An account holds cash and shares, fewer than none when it is short. It enters every position with
all it has and leaves it entirely; a reversal leaves one position and enters the other at the same
price. An account without money to enter with stays in cash.
-/

namespace Backtest

structure Account (α : Type) where
  capital : α
  shares : α
  position : Position
deriving DecidableEq, Repr

/-- An account after some trades, with these trades in order. -/
structure Turn (α : Type) where
  account : Account α
  trades : List (Trade α)
deriving DecidableEq, Repr

namespace Turn

variable {α : Type}

def none (account : Account α) : Turn α := ⟨account, []⟩

/-- Goes on with the account that the turn leaves. -/
def andThen (turn : Turn α) (next : Account α → Turn α) : Turn α :=
  let second := next turn.account
  ⟨second.account, turn.trades ++ second.trades⟩

end Turn

namespace Account

variable {α : Type} [Scalar α]

def opening (capital : α) : Account α := ⟨capital, 0, .cash⟩

def value (account : Account α) (price : α) : α := account.capital + account.shares * price

/-- The trade that led to an account. -/
def tradeTo (account : Account α) (date : Date) (kind : Trade.Kind) (price quantity commission : α) :
    Trade α :=
  { date
    kind
    price
    quantity
    value := quantity * price
    commission
    capitalAfter := account.capital
    positionAfter := account.position }

/-- Buys for all the capital that is left after the commission. -/
def enterLong (feeRate : α) (date : Date) (price : α) (account : Account α) : Turn α :=
  if account.capital ≤ 0 then .none account
  else
    let commission := account.capital * feeRate
    let shares := (account.capital - commission) / price
    let entered : Account α := ⟨0, shares, .long⟩
    ⟨entered, [entered.tradeTo date .buy price shares commission]⟩

/-- Buys for all the capital at the price with the fee on top. -/
def enterLongWithFee (feeRate : α) (date : Date) (price : α) (account : Account α) : Turn α :=
  if account.capital ≤ 0 then .none account
  else
    let shares := account.capital / (price * (1 + feeRate))
    let commission := shares * price * feeRate
    let entered : Account α := ⟨0, shares, .long⟩
    ⟨entered, [entered.tradeTo date .buy price shares commission]⟩

/-- Sells short shares worth all the account; what they bring in joins the capital. -/
def enterShort (feeRate : α) (date : Date) (price : α) (account : Account α) : Turn α :=
  let value := account.value price
  if value ≤ 0 then .none account
  else
    let quantity := value / price
    let commission := value * feeRate
    let entered : Account α := ⟨value + value - commission, -quantity, .short⟩
    ⟨entered, [entered.tradeTo date .shortSell price quantity commission]⟩

def exitLong (feeRate : α) (date : Date) (price : α) (account : Account α) : Turn α :=
  let quantity := account.shares
  let sale := quantity * price
  let commission := sale * feeRate
  let left : Account α := ⟨account.capital + (sale - commission), 0, .cash⟩
  ⟨left, [left.tradeTo date .sell price quantity commission]⟩

def coverShort (feeRate : α) (date : Date) (price : α) (account : Account α) : Turn α :=
  let quantity := Scalar.magnitude account.shares
  let cost := quantity * price
  let commission := cost * feeRate
  let left : Account α := ⟨account.capital - (cost + commission), 0, .cash⟩
  ⟨left, [left.tradeTo date .coverShort price quantity commission]⟩

/-- Trades towards a target position at the close of a day. -/
def turnTo (target : Position) (convention : FeeConvention) (feeRate : α) (date : Date) (price : α)
    (account : Account α) : Turn α :=
  match account.position, target with
  | .cash, .long => account.enterLong feeRate date price
  | .cash, .short => account.enterShort feeRate date price
  | .long, .cash => account.exitLong feeRate date price
  | .short, .cash => account.coverShort feeRate date price
  | .long, .short =>
    (account.exitLong feeRate date price).andThen (enterShort feeRate date price)
  | .short, .long =>
    (account.coverShort feeRate date price).andThen <|
      match convention with
      | .absorbed => enterLong feeRate date price
      | .legacy => enterLongWithFee feeRate date price
  | .long, .long | .cash, .cash | .short, .short => .none account

end Account

end Backtest
