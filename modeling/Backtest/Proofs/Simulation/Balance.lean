import Mathlib.Tactic.FieldSimp
import Mathlib.Tactic.Linarith
import Mathlib.Tactic.Positivity
import Mathlib.Tactic.Ring
import Backtest.Proofs.Simulation.Checks
import Backtest.Proofs.Simulation.Days

/-!
# Exact accounts

With exact scalars an account is always in one of three states: it has shares and no cash, cash and no
shares, or cash against the shares that it owes. In these states a turn takes the commissions of its
trades from the value of the account and nothing else. The two facts depend on each other: an entry
spends the whole value only because the account it starts from holds no shares.
-/

namespace Backtest

/-- What an account may hold. Cash alone may be negative, after a short that lost more than the account
had. -/
inductive Account.Sound : Account Rat → Prop
  | long {shares : Rat} (hshares : 0 < shares) : Sound ⟨0, shares, .long⟩
  | cash (capital : Rat) : Sound ⟨capital, 0, .cash⟩
  | short {capital shares : Rat} (hcapital : 0 < capital) (hshares : shares < 0) :
      Sound ⟨capital, shares, .short⟩

/-- The commissions of some trades. -/
def commissions (trades : List (Trade Rat)) : Rat := (trades.map Trade.commission).sum

@[simp]
theorem commissions_nil : commissions [] = 0 := rfl

@[simp]
theorem commissions_singleton (trade : Trade Rat) : commissions [trade] = trade.commission := by
  simp [commissions]

@[simp]
theorem commissions_append (first second : List (Trade Rat)) :
    commissions (first ++ second) = commissions first + commissions second := by
  simp [commissions]

/-- The turn leaves a sound account and costs its commissions. -/
structure Turn.Balanced (price : Rat) (account : Account Rat) (turn : Turn Rat) : Prop where
  sound : turn.account.Sound
  value_eq : turn.account.value price = account.value price - commissions turn.trades

namespace Account

theorem Sound.eq_of_cash {account : Account Rat} (hsound : account.Sound)
    (hcash : account.position = .cash) : account = ⟨account.capital, 0, .cash⟩ := by
  cases hsound with
  | long => cases hcash
  | cash => rfl
  | short => cases hcash

section Moves

variable {feeRate price : Rat} {date : Date}

theorem none_balanced {account : Account Rat} (hsound : account.Sound) :
    (Turn.none account).Balanced price account :=
  ⟨hsound, by simp [Turn.none]⟩

theorem enterLong_balanced (hfee : feeRate < 1) (hprice : 0 < price) (capital : Rat) :
    Turn.Balanced price ⟨capital, 0, .cash⟩ (enterLong feeRate date price ⟨capital, 0, .cash⟩) := by
  by_cases hcapital : capital ≤ 0
  · rw [enterLong_of_le hcapital]
    exact none_balanced (.cash capital)
  · rw [enterLong_of_not_le hcapital]
    have hspent : 0 < capital - capital * feeRate := by
      have := mul_pos (not_le.mp hcapital) (sub_pos.mpr hfee)
      linarith
    refine ⟨.long (div_pos hspent hprice), ?_⟩
    simp only [value, commissions_singleton, tradeTo]
    field_simp
    ring

theorem enterLongWithFee_balanced (hnonneg : 0 ≤ feeRate) (hprice : 0 < price) (capital : Rat) :
    Turn.Balanced price ⟨capital, 0, .cash⟩
      (enterLongWithFee feeRate date price ⟨capital, 0, .cash⟩) := by
  by_cases hcapital : capital ≤ 0
  · rw [enterLongWithFee_of_le hcapital]
    exact none_balanced (.cash capital)
  · rw [enterLongWithFee_of_not_le hcapital]
    have hrate : 0 < 1 + feeRate := by linarith
    refine ⟨.long (div_pos (not_le.mp hcapital) (mul_pos hprice hrate)), ?_⟩
    simp only [value, commissions_singleton, tradeTo]
    field_simp
    ring

theorem value_cash (capital price : Rat) : value ⟨capital, 0, .cash⟩ price = capital := by
  simp [value]

theorem enterShort_balanced (hfee : feeRate < 1) (hprice : 0 < price) (capital : Rat) :
    Turn.Balanced price ⟨capital, 0, .cash⟩ (enterShort feeRate date price ⟨capital, 0, .cash⟩) := by
  by_cases hvalue : value ⟨capital, 0, .cash⟩ price ≤ 0
  · rw [enterShort_of_le hvalue]
    exact none_balanced (.cash capital)
  · rw [enterShort_of_not_le hvalue]
    rw [value_cash, not_le] at hvalue
    simp only [value_cash]
    have hfees : 0 < capital * (1 - feeRate) := mul_pos hvalue (sub_pos.mpr hfee)
    refine ⟨.short (by linarith) (neg_neg_of_pos (div_pos hvalue hprice)), ?_⟩
    simp only [value, commissions_singleton, tradeTo]
    field_simp
    ring

theorem exitLong_balanced (shares : Rat) :
    Turn.Balanced price ⟨0, shares, .long⟩ (exitLong feeRate date price ⟨0, shares, .long⟩) := by
  refine ⟨.cash _, ?_⟩
  simp only [exitLong, value, commissions_singleton, tradeTo]
  ring

/-- Covering costs what the shares owed are worth; that is the loss of value, since fewer than no
shares are held. -/
theorem coverShort_balanced {shares : Rat} (hshares : shares < 0) (capital : Rat) :
    Turn.Balanced price ⟨capital, shares, .short⟩
      (coverShort feeRate date price ⟨capital, shares, .short⟩) := by
  refine ⟨.cash _, ?_⟩
  simp only [coverShort, value, commissions_singleton, tradeTo, Scalar.magnitude_rat,
    abs_of_neg hshares]
  ring

end Moves

theorem turnTo_balanced {account : Account Rat} (hsound : account.Sound) {feeRate price : Rat}
    (hnonneg : 0 ≤ feeRate) (hfee : feeRate < 1) (hprice : 0 < price) (target : Position)
    (convention : FeeConvention) (date : Date) :
    (account.turnTo target convention feeRate date price).Balanced price account := by
  refine turnTo_induction (motive := fun account turn => account.Sound → turn.Balanced price account)
    ?stay ?enterLong ?enterLongWithFee ?enterShort ?exitLong ?coverShort ?andThen account hsound
  case stay => exact fun _ => none_balanced
  case enterLong =>
    intro account hcash hsound
    rw [hsound.eq_of_cash hcash]
    exact enterLong_balanced hfee hprice _
  case enterLongWithFee =>
    intro account hcash _ hsound
    rw [hsound.eq_of_cash hcash]
    exact enterLongWithFee_balanced hnonneg hprice _
  case enterShort =>
    intro account hcash hsound
    rw [hsound.eq_of_cash hcash]
    exact enterShort_balanced hfee hprice _
  case exitLong =>
    intro account hlong hsound
    cases hsound with
    | long => exact exitLong_balanced _
    | cash => cases hlong
    | short => cases hlong
  case coverShort =>
    intro account hshort hsound
    cases hsound with
    | long => cases hshort
    | cash => cases hshort
    | short _ hshares => exact coverShort_balanced hshares _
  case andThen =>
    intro account turn next hturn hnext hsound
    -- The second turn starts from the account that the first one leaves, which is sound.
    have hfirst := hturn hsound
    have hsecond := hnext hfirst.sound
    refine ⟨hsecond.sound, ?_⟩
    calc (next turn.account).account.value price
        = turn.account.value price - commissions (next turn.account).trades := hsecond.value_eq
      _ = account.value price - commissions turn.trades - commissions (next turn.account).trades := by
          rw [hfirst.value_eq]
      _ = account.value price - commissions (turn.andThen next).trades := by
          rw [Turn.andThen, commissions_append, sub_sub]

end Account

/-! ### The days of a run -/

namespace Simulation

variable {terms : Terms Rat} {signal : Series Position} {bars : List (Bar Rat)}

theorem turnOn_balanced (hterms : terms.Valid) {account : Account Rat} (hsound : account.Sound)
    {bar : Bar Rat} (hclose : 0 < bar.close) :
    (turnOn terms signal account bar).Balanced bar.close account :=
  Account.turnTo_balanced hsound hterms.fee_nonneg (by linarith [hterms.fee_lt]) hclose _ _ _

/-- Every day of a run leaves a sound account. -/
theorem accountAfter_sound (hterms : terms.Valid) (hclose : ∀ bar ∈ bars, 0 < bar.close) :
    (accountAfter terms signal bars).Sound := by
  induction bars using List.reverseRecOn with
  | nil => exact .cash _
  | append_singleton bars bar ih =>
      rw [accountAfter_concat]
      have hsound := ih fun other hother => hclose other (List.mem_append_left _ hother)
      exact (turnOn_balanced hterms hsound (hclose bar (by simp))).sound

theorem Tradable.sound_before (hterms : terms.Valid) {early late : List (Bar Rat)}
    (hbars : Tradable (early ++ late) signal) : (accountAfter terms signal early).Sound :=
  accountAfter_sound hterms fun _ hbar => hbars.close_pos (List.mem_append_left _ hbar)

theorem Tradable.sound_after (hterms : terms.Valid) {early late : List (Bar Rat)} {bar : Bar Rat}
    (hbars : Tradable (early ++ bar :: late) signal) :
    (accountAfter terms signal (early ++ [bar])).Sound := by
  rw [List.append_cons] at hbars
  exact hbars.sound_before hterms

end Simulation

end Backtest
