import Backtest.Simulation.Account

/-!
# What a turn consists of

A turn is put together from five moves: two ways to enter a long position, one to enter a short one,
and one exit from each. A law of turns is therefore proved once for every move, for the turn without
trades and for two turns in a row, whatever the position and the target are.
-/

namespace Backtest.Account

variable {α : Type} [Scalar α] {target : Position} {convention : FeeConvention} {feeRate price : α}
  {date : Date}

/-! ### The moves

An entry without money is no trade; every other move is one trade.
-/

section Moves

variable {account : Account α}

theorem enterLong_of_le (hcapital : account.capital ≤ 0) :
    account.enterLong feeRate date price = .none account :=
  if_pos hcapital

theorem enterLong_of_not_le (hcapital : ¬account.capital ≤ 0) :
    account.enterLong feeRate date price =
      let commission := account.capital * feeRate
      let shares := (account.capital - commission) / price
      ⟨⟨0, shares, .long⟩, [tradeTo ⟨0, shares, .long⟩ date .buy price shares commission]⟩ :=
  if_neg hcapital

theorem enterLongWithFee_of_le (hcapital : account.capital ≤ 0) :
    account.enterLongWithFee feeRate date price = .none account :=
  if_pos hcapital

theorem enterLongWithFee_of_not_le (hcapital : ¬account.capital ≤ 0) :
    account.enterLongWithFee feeRate date price =
      let shares := account.capital / (price * (1 + feeRate))
      let commission := shares * price * feeRate
      ⟨⟨0, shares, .long⟩, [tradeTo ⟨0, shares, .long⟩ date .buy price shares commission]⟩ :=
  if_neg hcapital

theorem enterShort_of_le (hvalue : account.value price ≤ 0) :
    account.enterShort feeRate date price = .none account :=
  if_pos hvalue

theorem enterShort_of_not_le (hvalue : ¬account.value price ≤ 0) :
    account.enterShort feeRate date price =
      let value := account.value price
      let quantity := value / price
      let commission := value * feeRate
      let entered : Account α := ⟨value + value - commission, -quantity, .short⟩
      ⟨entered, [entered.tradeTo date .shortSell price quantity commission]⟩ :=
  if_neg hvalue

end Moves

/-! ### Turns -/

/-- Entries are made from cash only, and the fee stands on top of the price only where the convention
says so. -/
theorem turnTo_induction {motive : Account α → Turn α → Prop}
    (stay : ∀ account, motive account (.none account))
    (enterLong : ∀ account, account.position = .cash →
      motive account (account.enterLong feeRate date price))
    (enterLongWithFee : ∀ account, account.position = .cash → convention = .legacy →
      motive account (account.enterLongWithFee feeRate date price))
    (enterShort : ∀ account, account.position = .cash →
      motive account (account.enterShort feeRate date price))
    (exitLong : ∀ account, account.position = .long →
      motive account (account.exitLong feeRate date price))
    (coverShort : ∀ account, account.position = .short →
      motive account (account.coverShort feeRate date price))
    (andThen : ∀ account turn next, motive account turn → motive turn.account (next turn.account) →
      motive account (turn.andThen next))
    (account : Account α) : motive account (account.turnTo target convention feeRate date price) := by
  cases hposition : account.position with
  | long =>
      cases target with
      | long => simpa only [turnTo, hposition] using stay account
      | cash => simpa only [turnTo, hposition] using exitLong account hposition
      | short =>
          simpa only [turnTo, hposition] using
            andThen _ _ _ (exitLong account hposition) (enterShort _ rfl)
  | cash =>
      cases target with
      | long => simpa only [turnTo, hposition] using enterLong account hposition
      | cash => simpa only [turnTo, hposition] using stay account
      | short => simpa only [turnTo, hposition] using enterShort account hposition
  | short =>
      cases target with
      | long =>
          have hcover := coverShort account hposition
          cases convention with
          | absorbed =>
              simpa only [turnTo, hposition] using andThen _ _ _ hcover (enterLong _ rfl)
          | legacy =>
              simpa only [turnTo, hposition] using andThen _ _ _ hcover (enterLongWithFee _ rfl rfl)
      | cash => simpa only [turnTo, hposition] using coverShort account hposition
      | short => simpa only [turnTo, hposition] using stay account

/-- Every trade of a turn is made on its day and at its price. -/
theorem date_and_price_of_mem_turnTo {account : Account α} {trade : Trade α}
    (hmem : trade ∈ (account.turnTo target convention feeRate date price).trades) :
    trade.date = date ∧ trade.price = price := by
  suffices htrades : ∀ trade ∈ (account.turnTo target convention feeRate date price).trades,
      trade.date = date ∧ trade.price = price from htrades trade hmem
  refine turnTo_induction
    (motive := fun _ turn => ∀ trade ∈ turn.trades, trade.date = date ∧ trade.price = price)
    ?stay ?enterLong ?enterLongWithFee ?enterShort ?exitLong ?coverShort ?andThen account
  case stay =>
    intro account trade hmem
    exact absurd hmem List.not_mem_nil
  case enterLong =>
    intro account _
    by_cases hcapital : account.capital ≤ 0
    · simp [enterLong_of_le hcapital, Turn.none]
    · simp [enterLong_of_not_le hcapital, tradeTo]
  case enterLongWithFee =>
    intro account _ _
    by_cases hcapital : account.capital ≤ 0
    · simp [enterLongWithFee_of_le hcapital, Turn.none]
    · simp [enterLongWithFee_of_not_le hcapital, tradeTo]
  case enterShort =>
    intro account _
    by_cases hvalue : account.value price ≤ 0
    · simp [enterShort_of_le hvalue, Turn.none]
    · simp [enterShort_of_not_le hvalue, tradeTo]
  case exitLong =>
    intro account _
    simp [exitLong, tradeTo]
  case coverShort =>
    intro account _
    simp [coverShort, tradeTo]
  case andThen =>
    intro account turn next hturn hnext trade hmem
    rcases List.mem_append.mp hmem with hfirst | hsecond
    · exact hturn trade hfirst
    · exact hnext trade hsecond

theorem date_of_mem_turnTo {account : Account α} {trade : Trade α}
    (hmem : trade ∈ (account.turnTo target convention feeRate date price).trades) :
    trade.date = date :=
  (date_and_price_of_mem_turnTo hmem).1

theorem price_of_mem_turnTo {account : Account α} {trade : Trade α}
    (hmem : trade ∈ (account.turnTo target convention feeRate date price).trades) :
    trade.price = price :=
  (date_and_price_of_mem_turnTo hmem).2

end Backtest.Account
