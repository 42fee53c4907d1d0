import Backtest.Proofs.Simulation.Cutoff
import Backtest.Proofs.Simulation.Tracking

/-!
# Higher fees

A run that pays a higher fee rate is never worth more than one that pays a lower rate, as long as the
latter stays above nothing. The accounts hold the same position and the one with the lower rate holds
more of it, until the other one may be ruined by a short. Without the condition this is false, since
an account that has more loses more on a short that ruins it.
-/

namespace Backtest

def Terms.charging (feeRate : Rat) (terms : Terms Rat) : Terms Rat := { terms with feeRate := feeRate }

/-- The first account pays the lower rate. It holds at least as much of the same position, or the
second account is in cash without money. -/
inductive Account.Ahead (low high : Rat) : Account Rat → Account Rat → Prop
  | long {more less : Rat} (hless : 0 < less) (hle : less ≤ more) :
      Ahead low high ⟨0, more, .long⟩ ⟨0, less, .long⟩
  | cash {more less : Rat} (hmore : 0 < more) (hle : less ≤ more) :
      Ahead low high ⟨more, 0, .cash⟩ ⟨less, 0, .cash⟩
  | short {more less entryPrice : Rat} (hless : 0 < less) (hle : less ≤ more) (hentry : 0 < entryPrice) :
      Ahead low high ⟨more * (2 - low), -(more / entryPrice), .short⟩
        ⟨less * (2 - high), -(less / entryPrice), .short⟩
  | ruined {account : Account Rat} {left : Rat} (hruined : left ≤ 0) :
      Ahead low high account ⟨left, 0, .cash⟩

/-- More money times a larger factor is more, if the larger factor leaves any of it. -/
theorem mul_le_mul_of_pos_product {more less factor smaller : Rat} (hless : 0 < less)
    (hle : less ≤ more) (hfactor : smaller ≤ factor) (hpositive : 0 < more * factor) :
    less * smaller ≤ more * factor := by
  have hmore : 0 < more := lt_of_lt_of_le hless hle
  have hkept : 0 < factor := (mul_pos_iff_of_pos_left hmore).mp hpositive
  calc less * smaller ≤ less * factor := mul_le_mul_of_nonneg_left hfactor hless.le
    _ ≤ more * factor := mul_le_mul_of_nonneg_right hle hkept.le

namespace Account

variable {low high price : Rat} {date : Date} {cheap dear : Account Rat}

theorem value_short (money rate entryPrice price : Rat) :
    value ⟨money * (2 - rate), -(money / entryPrice), .short⟩ price =
      money * (2 - rate - price / entryPrice) := by
  simp only [value]
  ring

/-- The account with the lower rate is worth more, unless it is worth nothing. -/
theorem Ahead.value_le (hahead : Ahead low high cheap dear) (hle : low ≤ high) (hprice : 0 < price)
    (hpositive : 0 < cheap.value price) : dear.value price ≤ cheap.value price := by
  cases hahead with
  | long _ hshares =>
      simp only [value, zero_add]
      exact mul_le_mul_of_nonneg_right hshares hprice.le
  | cash _ hmoney => rwa [value_cash, value_cash]
  | short hless hmoney _ =>
      rw [value_short] at hpositive ⊢
      rw [value_short]
      exact mul_le_mul_of_pos_product hless hmoney (by linarith) hpositive
  | ruined hruined =>
      rw [value_cash]
      exact hruined.trans hpositive.le

/-! ### Entries and exits -/

/-- Two entries from cash, under the lower and under the higher rate. -/
structure EntersAhead (low high : Rat) (cheap dear : Account Rat → Turn Rat) : Prop where
  stays : ∀ money : Rat, money ≤ 0 → cheap ⟨money, 0, .cash⟩ = .none ⟨money, 0, .cash⟩
  ahead : ∀ more less : Rat, 0 < more → less ≤ more →
    Ahead low high (cheap ⟨more, 0, .cash⟩).account (dear ⟨less, 0, .cash⟩).account

theorem enterLong_ahead (hle : low ≤ high) (hhigh : high < 1) (hprice : 0 < price) :
    EntersAhead low high (enterLong low date price) (enterLong high date price) := by
  refine ⟨fun money hmoney => enterLong_of_le hmoney, fun more less hmore hless => ?_⟩
  by_cases hruined : less ≤ 0
  · have hstays : enterLong high date price ⟨less, 0, .cash⟩ = .none ⟨less, 0, .cash⟩ :=
      enterLong_of_le hruined
    rw [hstays]
    exact .ruined hruined
  · have hpaid : ∀ money rate : Rat, money - money * rate = money * (1 - rate) := by
      intro money rate
      ring
    rw [enterLong_of_not_le (not_le.mpr hmore), enterLong_of_not_le hruined]
    simp only [hpaid]
    have hpositive : 0 < less := not_le.mp hruined
    have hkept : 0 < more * (1 - low) := mul_pos hmore (by linarith)
    refine .long (div_pos (mul_pos hpositive (by linarith)) hprice) ?_
    exact div_le_div_of_nonneg_right
      (mul_le_mul_of_pos_product hpositive hless (by linarith) hkept) hprice.le

theorem enterLongWithFee_ahead (hlow : 0 ≤ low) (hle : low ≤ high) (hprice : 0 < price) :
    EntersAhead low high (enterLongWithFee low date price) (enterLongWithFee high date price) := by
  refine ⟨fun money hmoney => enterLongWithFee_of_le hmoney, fun more less hmore hless => ?_⟩
  by_cases hruined : less ≤ 0
  · have hstays : enterLongWithFee high date price ⟨less, 0, .cash⟩ = .none ⟨less, 0, .cash⟩ :=
      enterLongWithFee_of_le hruined
    rw [hstays]
    exact .ruined hruined
  · rw [enterLongWithFee_of_not_le (not_le.mpr hmore), enterLongWithFee_of_not_le hruined]
    have hcheap : 0 < price * (1 + low) := mul_pos hprice (by linarith)
    have hdear : price * (1 + low) ≤ price * (1 + high) :=
      mul_le_mul_of_nonneg_left (by linarith) hprice.le
    refine .long (div_pos (not_le.mp hruined) (hcheap.trans_le hdear)) ?_
    exact div_le_div₀ hmore.le hless hcheap hdear

theorem enterShort_ahead (hprice : 0 < price) :
    EntersAhead low high (enterShort low date price) (enterShort high date price) := by
  refine ⟨fun money hmoney => enterShort_of_le (by rwa [value_cash]), fun more less hmore hless => ?_⟩
  by_cases hruined : less ≤ 0
  · have hstays : enterShort high date price ⟨less, 0, .cash⟩ = .none ⟨less, 0, .cash⟩ :=
      enterShort_of_le (by rwa [value_cash])
    rw [hstays]
    exact .ruined hruined
  · have hproceeds : ∀ money rate : Rat, money + money - money * rate = money * (2 - rate) := by
      intro money rate
      ring
    rw [enterShort_of_not_le (by rwa [value_cash, not_le]), enterShort_of_not_le (by rwa [value_cash])]
    simp only [value_cash, hproceeds]
    exact .short (not_le.mp hruined) hless hprice

/-- Both accounts are in cash, and the first one has more if it has any. -/
def SettledAhead (cheap dear : Account Rat) : Prop :=
  ∃ more less : Rat, cheap = ⟨more, 0, .cash⟩ ∧ dear = ⟨less, 0, .cash⟩ ∧ (0 < more → less ≤ more)

theorem exitLong_settledAhead (date : Date) (hle : low ≤ high) (hprice : 0 < price) {more less : Rat}
    (hless : 0 < less) (hshares : less ≤ more) :
    SettledAhead (exitLong low date price ⟨0, more, .long⟩).account
      (exitLong high date price ⟨0, less, .long⟩).account := by
  have hsale : ∀ shares rate : Rat, 0 + (shares * price - shares * price * rate) =
      shares * (price * (1 - rate)) := by
    intro shares rate
    ring
  refine ⟨more * (price * (1 - low)), less * (price * (1 - high)), ?_, ?_, fun hpositive => ?_⟩
  · simp only [exitLong, hsale]
  · simp only [exitLong, hsale]
  · have hfactor : price * (1 - high) ≤ price * (1 - low) :=
      mul_le_mul_of_nonneg_left (by linarith) hprice.le
    exact mul_le_mul_of_pos_product hless hshares hfactor hpositive

theorem coverShort_account {money rate entryPrice : Rat} (hmoney : 0 < money)
    (hentry : 0 < entryPrice) :
    (coverShort rate date price ⟨money * (2 - rate), -(money / entryPrice), .short⟩).account =
      ⟨money * (2 - rate - (1 + rate) * (price / entryPrice)), 0, .cash⟩ := by
  have hquantity : |-(money / entryPrice)| = money / entryPrice := by
    rw [abs_neg, abs_of_pos (div_pos hmoney hentry)]
  have hpaid : money * (2 - rate) -
        (money / entryPrice * price + money / entryPrice * price * rate) =
      money * (2 - rate - (1 + rate) * (price / entryPrice)) := by
    ring
  simp only [coverShort, Scalar.magnitude_rat, hquantity, hpaid]

theorem coverShort_settledAhead (date : Date) (hle : low ≤ high) (hprice : 0 < price)
    {more less entryPrice : Rat} (hless : 0 < less) (hmoney : less ≤ more) (hentry : 0 < entryPrice) :
    SettledAhead
      (coverShort low date price ⟨more * (2 - low), -(more / entryPrice), .short⟩).account
      (coverShort high date price ⟨less * (2 - high), -(less / entryPrice), .short⟩).account := by
  refine ⟨_, _, coverShort_account (hless.trans_le hmoney) hentry, coverShort_account hless hentry,
    fun hpositive => ?_⟩
  have hratio : 0 < price / entryPrice := div_pos hprice hentry
  have hfees : (1 + low) * (price / entryPrice) ≤ (1 + high) * (price / entryPrice) :=
    mul_le_mul_of_nonneg_right (by linarith) hratio.le
  exact mul_le_mul_of_pos_product hless hmoney (by linarith) hpositive

/-- An entry that follows an exit. If the exit had left nothing under the lower rate, the account would
be worth nothing after the entry either. -/
theorem SettledAhead.enter {enterCheap enterDear : Account Rat → Turn Rat}
    (hsettled : SettledAhead cheap dear) (henters : EntersAhead low high enterCheap enterDear)
    (hpositive : 0 < (enterCheap cheap).account.value price) :
    Ahead low high (enterCheap cheap).account (enterDear dear).account := by
  obtain ⟨more, less, rfl, rfl, hle⟩ := hsettled
  by_cases hmore : 0 < more
  · exact henters.ahead more less hmore (hle hmore)
  · rw [henters.stays more (not_lt.mp hmore), Turn.none, value_cash] at hpositive
    exact absurd hpositive hmore

theorem SettledAhead.ahead (hsettled : SettledAhead cheap dear) (hpositive : 0 < cheap.value price) :
    Ahead low high cheap dear := by
  obtain ⟨more, less, rfl, rfl, hle⟩ := hsettled
  rw [value_cash] at hpositive
  exact .cash hpositive (hle hpositive)

/-- By cases on what the accounts hold and on the target. Only the account with the lower rate has to
be worth something at the end of the day. -/
theorem Ahead.turnTo (hahead : Ahead low high cheap dear) (target : Position)
    (convention : FeeConvention) (hlow : 0 ≤ low) (hle : low ≤ high) (hhigh : high < 1)
    (hprice : 0 < price)
    (hpositive : 0 < (cheap.turnTo target convention low date price).account.value price) :
    Ahead low high (cheap.turnTo target convention low date price).account
      (dear.turnTo target convention high date price).account := by
  cases hahead with
  | long hless hshares =>
      have hexit := exitLong_settledAhead date hle hprice hless hshares
      cases target with
      | long => exact .long hless hshares
      | cash => exact hexit.ahead hpositive
      | short => exact hexit.enter (enterShort_ahead hprice) hpositive
  | cash hmore hmoney =>
      cases target with
      | long => exact (enterLong_ahead hle hhigh hprice).ahead _ _ hmore hmoney
      | cash => exact .cash hmore hmoney
      | short => exact (enterShort_ahead hprice).ahead _ _ hmore hmoney
  | short hless hmoney hentry =>
      have hcover := coverShort_settledAhead date hle hprice hless hmoney hentry
      cases target with
      | long =>
          cases convention with
          | absorbed => exact hcover.enter (enterLong_ahead hle hhigh hprice) hpositive
          | legacy => exact hcover.enter (enterLongWithFee_ahead hlow hle hprice) hpositive
      | cash => exact hcover.ahead hpositive
      | short => exact .short hless hmoney hentry
  | ruined hruined =>
      rw [turnTo_eq_none_of_ruined hruined target convention]
      exact .ruined hruined

end Account

/-! ### The two runs -/

namespace Simulation

variable {terms : Terms Rat} {signal : Series Position} {bars early late : List (Bar Rat)}
  {bar : Bar Rat} {low high : Rat}

theorem accountAfter_ahead (hlow : (terms.charging low).Valid) (hhigh : (terms.charging high).Valid)
    (hle : low ≤ high) (hclose : ∀ bar ∈ bars, 0 < bar.close)
    (hpositive : ∀ point ∈ (outcome (terms.charging low) bars signal).equity,
      0 < point.portfolioValue) :
    (accountAfter (terms.charging low) signal bars).Ahead low high
      (accountAfter (terms.charging high) signal bars) := by
  induction bars using List.reverseRecOn with
  | nil =>
      have hleast : 100 ≤ terms.initialCapital := hlow.capital_ge
      have hcapital : 0 < terms.initialCapital := by linarith
      exact .cash hcapital le_rfl
  | append_singleton bars bar ih =>
      rw [equity_outcome_concat, List.forall_mem_append, List.forall_mem_singleton] at hpositive
      obtain ⟨hsofar, htoday⟩ := hpositive
      have hbefore := ih (fun other hother => hclose other (List.mem_append_left _ hother)) hsofar
      have hvalue : 0 < (accountAfter (terms.charging low) signal (bars ++ [bar])).value bar.close :=
        htoday
      have hbelow : high < 1 := lt_trans hhigh.fee_lt (by norm_num)
      rw [accountAfter_concat] at hvalue ⊢
      rw [accountAfter_concat]
      exact hbefore.turnTo _ terms.feeConvention hlow.fee_nonneg hle hbelow (hclose bar (by simp)) hvalue

/-- The second point is on the same day and worth no more. -/
structure PointAhead (cheap dear : EquityPoint Rat) : Prop where
  date_eq : dear.date = cheap.date
  value_le : dear.portfolioValue ≤ cheap.portfolioValue

theorem equity_ahead (hlow : (terms.charging low).Valid) (hhigh : (terms.charging high).Valid)
    (hle : low ≤ high) (hclose : ∀ bar ∈ bars, 0 < bar.close)
    (hpositive : ∀ point ∈ (outcome (terms.charging low) bars signal).equity,
      0 < point.portfolioValue) :
    List.Forall₂ PointAhead (outcome (terms.charging low) bars signal).equity
      (outcome (terms.charging high) bars signal).equity := by
  induction bars using List.reverseRecOn with
  | nil => exact .nil
  | append_singleton bars bar ih =>
      have hahead := accountAfter_ahead hlow hhigh hle hclose hpositive
      rw [equity_outcome_concat, List.forall_mem_append, List.forall_mem_singleton] at hpositive
      obtain ⟨hsofar, htoday⟩ := hpositive
      have hbefore := ih (fun other hother => hclose other (List.mem_append_left _ hother)) hsofar
      have hlast : PointAhead (pointAfter (terms.charging low) signal bars bar)
          (pointAfter (terms.charging high) signal bars bar) :=
        ⟨rfl, hahead.value_le hle (hclose bar (by simp)) htoday⟩
      rw [equity_outcome_concat, equity_outcome_concat]
      exact List.rel_append hbefore (.cons hlast .nil)

/-! ### A short squeeze

The short survives it without fees and turns into a long. With fees it costs more than the account has.
-/

namespace Sample

def squeeze : List (Bar Rat) :=
  [(0, 100), (1, 190), (2, 250)].map fun (day, close) => ⟨⟨day⟩, close, close, close, close, 0⟩

def squeezeSignal : Series Position where
  entries := [(⟨0⟩, .short), (⟨1⟩, .long), (⟨2⟩, .long)]
  ascending := by decide

theorem squeeze_tradable : Tradable squeeze squeezeSignal where
  nonempty := by simp [squeeze]
  ascending := by decide
  validClose := by simp [squeeze, Bar.hasValidClose_rat]
  covered := by decide

theorem check_charging {feeRate : Rat} (hnonneg : 0 ≤ feeRate) (hfee : feeRate < 1 / 10) :
    ((Sample.terms .absorbed).charging feeRate).check = .ok () := by
  have hvalid : ((Sample.terms .absorbed).charging feeRate).Valid :=
    ⟨(terms_valid .absorbed).capital_ge, hnonneg, hfee⟩
  exact Terms.check_eq_ok_iff.mpr hvalid

end Sample

/-- **Fees never help.** If a run is worth something on every day, the run with a higher fee rate gives a
result as well, and on no day is it worth more. -/
theorem run_never_gains_from_fees {result : Outcome Rat} (hle : low ≤ high)
    (hhigh : (terms.charging high).check = .ok ())
    (hrun : run (terms.charging low) bars signal = .ok result)
    (hpositive : ∀ point ∈ result.equity, 0 < point.portfolioValue) :
    ∃ dearer, run (terms.charging high) bars signal = .ok dearer ∧
      List.Forall₂ PointAhead result.equity dearer.equity := by
  obtain ⟨hlow, hbars, rfl⟩ := run_eq_ok_iff.mp hrun
  refine ⟨_, run_eq_ok_iff.mpr ⟨hhigh, hbars, rfl⟩, ?_⟩
  exact equity_ahead (Terms.check_eq_ok_iff.mp hlow) (Terms.check_eq_ok_iff.mp hhigh) hle
    (fun _ => hbars.close_pos) hpositive

theorem run_never_gains_from_fees_sample :
    let terms := Sample.terms .absorbed
    let result := outcome (terms.charging 0) Sample.squeeze Sample.squeezeSignal
    (0 : Rat) ≤ 9 / 100 ∧ (terms.charging (9 / 100)).check = .ok () ∧
      run (terms.charging 0) Sample.squeeze Sample.squeezeSignal = .ok result ∧
      (∀ point ∈ result.equity, 0 < point.portfolioValue) ∧
      ∃ dearer, run (terms.charging (9 / 100)) Sample.squeeze Sample.squeezeSignal = .ok dearer ∧
        List.Forall₂ PointAhead result.equity dearer.equity := by
  intro terms result
  have hlow : (terms.charging 0).check = .ok () := Sample.check_charging (by norm_num) (by norm_num)
  have hhigh : (terms.charging (9 / 100)).check = .ok () :=
    Sample.check_charging (by norm_num) (by norm_num)
  have hrun : run (terms.charging 0) Sample.squeeze Sample.squeezeSignal = .ok result :=
    run_eq_ok_iff.mpr ⟨hlow, Sample.squeeze_tradable, rfl⟩
  have hpositive : ∀ point ∈ result.equity, 0 < point.portfolioValue := by decide +kernel
  have hle : (0 : Rat) ≤ 9 / 100 := by norm_num
  exact ⟨hle, hhigh, hrun, hpositive, run_never_gains_from_fees hle hhigh hrun hpositive⟩

end Simulation

end Backtest
