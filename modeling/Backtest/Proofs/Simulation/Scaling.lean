import Mathlib.Algebra.Order.Field.Rat
import Mathlib.Algebra.Order.Ring.Abs
import Mathlib.Tactic.FieldSimp
import Mathlib.Tactic.Ring
import Backtest.Proofs.Scalar.Exact
import Backtest.Proofs.Simulation.Turn

/-!
# Other units

Money may be counted in another unit, and prices may be quoted in another one. Every move trades all that
an account has, so in other units an account makes the same turn with the same amounts in these units.
Whether an entry has money to enter with does not depend on the units either, as long as both are
positive. An account of another size is one whose money alone is counted in another unit.
-/

namespace Backtest

/-- The account when money is multiplied by `money` and prices by `level`. -/
def Account.inUnits (money level : Rat) (account : Account Rat) : Account Rat :=
  ⟨money * account.capital, money / level * account.shares, account.position⟩

def Trade.inUnits (money level : Rat) (trade : Trade Rat) : Trade Rat :=
  { trade with
    price := level * trade.price
    quantity := money / level * trade.quantity
    value := money * trade.value
    commission := money * trade.commission
    capitalAfter := money * trade.capitalAfter }

def Turn.inUnits (money level : Rat) (turn : Turn Rat) : Turn Rat :=
  ⟨turn.account.inUnits money level, turn.trades.map (Trade.inUnits money level)⟩

namespace Account

section Moves

variable {money level feeRate price : Rat} {date : Date}

/-- What shares are worth is an amount of money. -/
theorem worth_inUnits (hlevel : 0 < level) (shares price : Rat) :
    money / level * shares * (level * price) = money * (shares * price) := by
  field_simp

theorem value_inUnits (money : Rat) (hlevel : 0 < level) (account : Account Rat) (price : Rat) :
    (account.inUnits money level).value (level * price) = money * account.value price := by
  simp only [value, inUnits, worth_inUnits hlevel]
  ring

/-- A turn of one trade is the same in other units if the account, the quantity and the commission
are. -/
theorem inUnits_singleTrade (hlevel : 0 < level) {account changed : Account Rat} {kind : Trade.Kind}
    {quantity quantity' commission commission' : Rat} (haccount : changed = account.inUnits money level)
    (hquantity : quantity' = money / level * quantity) (hcommission : commission' = money * commission) :
    (⟨changed, [changed.tradeTo date kind (level * price) quantity' commission']⟩ : Turn Rat) =
      Turn.inUnits money level ⟨account, [account.tradeTo date kind price quantity commission]⟩ := by
  subst haccount hquantity hcommission
  simp only [Turn.inUnits, Trade.inUnits, tradeTo, worth_inUnits hlevel, List.map_singleton, inUnits]

theorem none_inUnits (money level : Rat) (account : Account Rat) :
    Turn.none (account.inUnits money level) = (Turn.none account).inUnits money level := rfl

theorem enterLong_inUnits (hmoney : 0 < money) (hlevel : 0 < level) (account : Account Rat) :
    (account.inUnits money level).enterLong feeRate date (level * price) =
      (account.enterLong feeRate date price).inUnits money level := by
  by_cases hcapital : account.capital ≤ 0
  · rw [enterLong_of_le hcapital, enterLong_of_le (mul_nonpos_of_nonneg_of_nonpos hmoney.le hcapital),
      none_inUnits]
  · have hchanged : 0 < (account.inUnits money level).capital := mul_pos hmoney (not_le.mp hcapital)
    have hshares : (money * account.capital - money * account.capital * feeRate) / (level * price) =
        money / level * ((account.capital - account.capital * feeRate) / price) := by
      rw [← mul_div_mul_comm, mul_sub, mul_assoc]
    rw [enterLong_of_not_le hcapital, enterLong_of_not_le (not_le.mpr hchanged)]
    refine inUnits_singleTrade hlevel ?_ hshares (mul_assoc _ _ _)
    simp only [inUnits, hshares, mul_zero]

theorem enterLongWithFee_inUnits (hmoney : 0 < money) (hlevel : 0 < level) (account : Account Rat) :
    (account.inUnits money level).enterLongWithFee feeRate date (level * price) =
      (account.enterLongWithFee feeRate date price).inUnits money level := by
  by_cases hcapital : account.capital ≤ 0
  · rw [enterLongWithFee_of_le hcapital,
      enterLongWithFee_of_le (mul_nonpos_of_nonneg_of_nonpos hmoney.le hcapital), none_inUnits]
  · have hchanged : 0 < (account.inUnits money level).capital := mul_pos hmoney (not_le.mp hcapital)
    have hshares : money * account.capital / (level * price * (1 + feeRate)) =
        money / level * (account.capital / (price * (1 + feeRate))) := by
      rw [mul_assoc level, mul_div_mul_comm]
    rw [enterLongWithFee_of_not_le hcapital, enterLongWithFee_of_not_le (not_le.mpr hchanged)]
    refine inUnits_singleTrade hlevel ?_ hshares ?_
    · simp only [inUnits, hshares, mul_zero]
    · simp only [inUnits]
      rw [hshares, worth_inUnits hlevel, mul_assoc]

theorem enterShort_inUnits (hmoney : 0 < money) (hlevel : 0 < level) (account : Account Rat) :
    (account.inUnits money level).enterShort feeRate date (level * price) =
      (account.enterShort feeRate date price).inUnits money level := by
  have hworth := value_inUnits money hlevel account price
  by_cases hvalue : account.value price ≤ 0
  · have hchanged : (account.inUnits money level).value (level * price) ≤ 0 := by
      rw [hworth]
      exact mul_nonpos_of_nonneg_of_nonpos hmoney.le hvalue
    rw [enterShort_of_le hvalue, enterShort_of_le hchanged, none_inUnits]
  · have hchanged : 0 < (account.inUnits money level).value (level * price) := by
      rw [hworth]
      exact mul_pos hmoney (not_le.mp hvalue)
    rw [enterShort_of_not_le hvalue, enterShort_of_not_le (not_le.mpr hchanged), hworth]
    refine inUnits_singleTrade hlevel ?_ (mul_div_mul_comm _ _ _ _) (mul_assoc _ _ _)
    have hproceeds : ∀ value : Rat, money * value + money * value - money * value * feeRate =
        money * (value + value - value * feeRate) := by
      intro value
      ring
    simp only [inUnits, hproceeds, mul_neg, mul_div_mul_comm]

theorem exitLong_inUnits (hlevel : 0 < level) (account : Account Rat) :
    (account.inUnits money level).exitLong feeRate date (level * price) =
      (account.exitLong feeRate date price).inUnits money level := by
  have hproceeds : ∀ sale : Rat, money * account.capital + (money * sale - money * sale * feeRate) =
      money * (account.capital + (sale - sale * feeRate)) := by
    intro sale
    ring
  refine inUnits_singleTrade hlevel ?_ rfl ?_
  · simp only [inUnits, worth_inUnits hlevel, hproceeds, mul_zero]
  · simp only [inUnits, worth_inUnits hlevel, mul_assoc]

theorem coverShort_inUnits (hmoney : 0 < money) (hlevel : 0 < level) (account : Account Rat) :
    (account.inUnits money level).coverShort feeRate date (level * price) =
      (account.coverShort feeRate date price).inUnits money level := by
  have hquantity : |money / level * account.shares| = money / level * |account.shares| := by
    rw [abs_mul, abs_of_pos (div_pos hmoney hlevel)]
  have hpaid : ∀ cost : Rat, money * account.capital - (money * cost + money * cost * feeRate) =
      money * (account.capital - (cost + cost * feeRate)) := by
    intro cost
    ring
  simp only [coverShort, Scalar.magnitude_rat]
  refine inUnits_singleTrade hlevel ?_ hquantity ?_
  · simp only [inUnits, hquantity, worth_inUnits hlevel, hpaid, mul_zero]
  · simp only [inUnits, hquantity, worth_inUnits hlevel, mul_assoc]

theorem andThen_inUnits {turn changed : Turn Rat} {next next' : Account Rat → Turn Rat}
    (hturn : changed = turn.inUnits money level)
    (hnext : next' (turn.account.inUnits money level) = (next turn.account).inUnits money level) :
    changed.andThen next' = (turn.andThen next).inUnits money level := by
  subst hturn
  simp only [Turn.andThen, Turn.inUnits, hnext, List.map_append]

end Moves

/-- By cases on the position and the target; a reversal is an exit and an entry in the same units. -/
theorem turnTo_inUnits {money level : Rat} (hmoney : 0 < money) (hlevel : 0 < level)
    (target : Position) (convention : FeeConvention) (feeRate : Rat) (date : Date) (price : Rat)
    (account : Account Rat) :
    (account.inUnits money level).turnTo target convention feeRate date (level * price) =
      (account.turnTo target convention feeRate date price).inUnits money level := by
  obtain ⟨capital, shares, position⟩ := account
  cases position with
  | long =>
      cases target with
      | long => rfl
      | cash => exact exitLong_inUnits hlevel _
      | short =>
          exact andThen_inUnits (exitLong_inUnits hlevel _) (enterShort_inUnits hmoney hlevel _)
  | cash =>
      cases target with
      | long => exact enterLong_inUnits hmoney hlevel _
      | cash => rfl
      | short => exact enterShort_inUnits hmoney hlevel _
  | short =>
      cases target with
      | long =>
          have hcover : (inUnits money level ⟨capital, shares, .short⟩).coverShort feeRate date
              (level * price) = (coverShort feeRate date price ⟨capital, shares, .short⟩).inUnits
                money level := coverShort_inUnits hmoney hlevel _
          cases convention with
          | absorbed => exact andThen_inUnits hcover (enterLong_inUnits hmoney hlevel _)
          | legacy => exact andThen_inUnits hcover (enterLongWithFee_inUnits hmoney hlevel _)
      | cash => exact coverShort_inUnits hmoney hlevel _
      | short => rfl

end Account

/-! ### Accounts of another size -/

def Account.scale (factor : Rat) (account : Account Rat) : Account Rat :=
  ⟨factor * account.capital, factor * account.shares, account.position⟩

def Trade.scale (factor : Rat) (trade : Trade Rat) : Trade Rat :=
  { trade with
    quantity := factor * trade.quantity
    value := factor * trade.value
    commission := factor * trade.commission
    capitalAfter := factor * trade.capitalAfter }

def Turn.scale (factor : Rat) (turn : Turn Rat) : Turn Rat :=
  ⟨turn.account.scale factor, turn.trades.map (Trade.scale factor)⟩

namespace Account

@[simp]
theorem scale_one (account : Account Rat) : account.scale 1 = account := by simp [scale]

theorem scale_scale (outer inner : Rat) (account : Account Rat) :
    (account.scale inner).scale outer = account.scale (outer * inner) := by
  simp only [scale, mul_assoc]

theorem inUnits_one (factor : Rat) (account : Account Rat) :
    account.inUnits factor 1 = account.scale factor := by
  simp only [inUnits, scale, div_one]

theorem value_scale (factor price : Rat) (account : Account Rat) :
    (account.scale factor).value price = factor * account.value price := by
  have hvalue := value_inUnits factor one_pos account price
  rwa [inUnits_one, one_mul] at hvalue

end Account

theorem Turn.inUnits_one (factor : Rat) (turn : Turn Rat) :
    turn.inUnits factor 1 = turn.scale factor := by
  simp [Turn.inUnits, Turn.scale, Account.inUnits_one, Trade.inUnits, Trade.scale]

theorem Account.turnTo_scale {factor : Rat} (hfactor : 0 < factor) (target : Position)
    (convention : FeeConvention) (feeRate : Rat) (date : Date) (price : Rat) (account : Account Rat) :
    (account.scale factor).turnTo target convention feeRate date price =
      (account.turnTo target convention feeRate date price).scale factor := by
  have hturn := turnTo_inUnits hfactor one_pos target convention feeRate date price account
  rwa [one_mul, inUnits_one, Turn.inUnits_one] at hturn

end Backtest
