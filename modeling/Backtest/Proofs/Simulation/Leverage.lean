import Backtest.Proofs.Simulation.Tracking

/-!
# Leverage

An entry spends the money that there is and no more: bought shares are worth the whole account, and what
is sold short is worth what the account was worth before the fee. This needs an account that holds cash
alone when it enters, and it does, since a reversal leaves the old position first. So a position starts
without leverage, the fee aside.
-/

namespace Backtest

/-- What the shares held or owed are worth. -/
def Account.exposure (account : Account Rat) (price : Rat) : Rat := |account.shares| * price

def EquityPoint.exposure (point : EquityPoint Rat) : Rat := |point.shares| * point.price

/-- The trade has led to the account. -/
structure Trade.LeadsTo (trade : Trade Rat) (account : Account Rat) (price : Rat) : Prop where
  position_eq : trade.positionAfter = account.position
  capital_eq : trade.capitalAfter = account.capital
  quantity_eq : trade.quantity = |account.shares|
  price_eq : trade.price = price

/-- A short position that the turn leaves is worth the account without the fee, and a trade that has
entered a position is the last one of the turn. -/
structure Turn.Unlevered (feeRate price : Rat) (turn : Turn Rat) : Prop where
  short : turn.account.position = .short →
    (1 - feeRate) * turn.account.exposure price = turn.account.value price
  entered : ∀ trade ∈ turn.trades, trade.positionAfter ≠ .cash → trade.LeadsTo turn.account price

namespace Account

variable {feeRate price : Rat} {date : Date} {account : Account Rat}

/-- A long position is worth the account on every day, since there is nothing beside it. -/
theorem Sound.exposure_of_long (hsound : account.Sound) (hlong : account.position = .long) (price : Rat) :
    account.exposure price = account.value price := by
  obtain ⟨hcapital, hshares⟩ := hsound.holdings.1 hlong
  rw [exposure, value, hcapital, abs_of_pos hshares, zero_add]

/-! ### Moves -/

theorem unlevered_of_cash {turn : Turn Rat} (hcash : turn.account.position = .cash)
    (htrades : ∀ trade ∈ turn.trades, trade.positionAfter = .cash) : turn.Unlevered feeRate price where
  short hshort := by
    rw [hcash] at hshort
    cases hshort
  entered trade hmem hinvested := absurd (htrades trade hmem) hinvested

theorem unlevered_of_bought {shares : Rat} (hshares : 0 < shares) (commission : Rat) :
    Turn.Unlevered feeRate price
      ⟨⟨0, shares, .long⟩, [tradeTo ⟨0, shares, .long⟩ date .buy price shares commission]⟩ where
  short := nofun
  entered trade hmem _ := by
    rw [List.mem_singleton.mp hmem]
    exact ⟨rfl, rfl, (abs_of_pos hshares).symm, rfl⟩

theorem enterLong_unlevered (hfee : feeRate < 1) (hprice : 0 < price) (capital : Rat) :
    (enterLong feeRate date price ⟨capital, 0, .cash⟩).Unlevered feeRate price := by
  by_cases hcapital : capital ≤ 0
  · rw [enterLong_of_le hcapital]
    exact unlevered_of_cash rfl (by simp [Turn.none])
  · have hsound : (enterLong feeRate date price ⟨capital, 0, .cash⟩).account.Sound :=
      (enterLong_balanced hfee hprice capital).sound
    rw [enterLong_of_not_le hcapital] at hsound ⊢
    exact unlevered_of_bought (hsound.holdings.1 rfl).2 _

theorem enterLongWithFee_unlevered (hnonneg : 0 ≤ feeRate) (hprice : 0 < price) (capital : Rat) :
    (enterLongWithFee feeRate date price ⟨capital, 0, .cash⟩).Unlevered feeRate price := by
  by_cases hcapital : capital ≤ 0
  · rw [enterLongWithFee_of_le hcapital]
    exact unlevered_of_cash rfl (by simp [Turn.none])
  · have hsound : (enterLongWithFee feeRate date price ⟨capital, 0, .cash⟩).account.Sound :=
      (enterLongWithFee_balanced hnonneg hprice capital).sound
    rw [enterLongWithFee_of_not_le hcapital] at hsound ⊢
    exact unlevered_of_bought (hsound.holdings.1 rfl).2 _

/-- The fee is what the account loses, so what is owed stays the whole former value. -/
theorem enterShort_unlevered (hprice : 0 < price) (capital : Rat) :
    (enterShort feeRate date price ⟨capital, 0, .cash⟩).Unlevered feeRate price := by
  by_cases hvalue : value ⟨capital, 0, .cash⟩ price ≤ 0
  · rw [enterShort_of_le hvalue]
    exact unlevered_of_cash rfl (by simp [Turn.none])
  · rw [enterShort_of_not_le hvalue]
    rw [value_cash, not_le] at hvalue
    simp only [value_cash]
    have hquantity : |-(capital / price)| = capital / price := by
      rw [abs_neg, abs_of_pos (div_pos hvalue hprice)]
    refine ⟨fun _ => ?_, fun trade hmem _ => ?_⟩
    · rw [exposure, value, hquantity]
      field_simp
      ring
    · rw [List.mem_singleton.mp hmem]
      exact ⟨rfl, rfl, hquantity.symm, rfl⟩

theorem exitLong_unlevered (account : Account Rat) :
    (account.exitLong feeRate date price).Unlevered feeRate price :=
  unlevered_of_cash rfl (by simp [exitLong, tradeTo])

theorem coverShort_unlevered (account : Account Rat) :
    (account.coverShort feeRate date price).Unlevered feeRate price :=
  unlevered_of_cash rfl (by simp [coverShort, tradeTo])

theorem andThen_unlevered {turn : Turn Rat} {next : Account Rat → Turn Rat}
    (hturn : turn.Unlevered feeRate price) (hcash : turn.account.position = .cash)
    (hnext : (next turn.account).Unlevered feeRate price) :
    (turn.andThen next).Unlevered feeRate price where
  short := hnext.short
  entered trade hmem hinvested := by
    rcases List.mem_append.mp hmem with hfirst | hsecond
    · exact absurd ((hturn.entered trade hfirst hinvested).position_eq.trans hcash) hinvested
    · exact hnext.entered trade hsecond hinvested

/-- By cases on the position and the target. Without a trade nothing is said: a position that is held
moves with the price. -/
theorem turnTo_unlevered (hsound : account.Sound) (hnonneg : 0 ≤ feeRate) (hfee : feeRate < 1)
    (hprice : 0 < price) (target : Position) (convention : FeeConvention)
    (htraded : (account.turnTo target convention feeRate date price).trades ≠ []) :
    (account.turnTo target convention feeRate date price).Unlevered feeRate price := by
  cases hsound with
  | long =>
      cases target with
      | long => exact absurd rfl htraded
      | cash => exact exitLong_unlevered _
      | short => exact andThen_unlevered (exitLong_unlevered _) rfl (enterShort_unlevered hprice _)
  | cash capital =>
      cases target with
      | long => exact enterLong_unlevered hfee hprice capital
      | cash => exact absurd rfl htraded
      | short => exact enterShort_unlevered hprice capital
  | short =>
      cases target with
      | long =>
          cases convention with
          | absorbed =>
              exact andThen_unlevered (coverShort_unlevered _) rfl (enterLong_unlevered hfee hprice _)
          | legacy =>
              exact andThen_unlevered (coverShort_unlevered _) rfl
                (enterLongWithFee_unlevered hnonneg hprice _)
      | cash => exact coverShort_unlevered _
      | short => exact absurd rfl htraded

/-- With the fee on top no position is worth more than the account. -/
theorem exposure_le (hsound : account.Sound)
    (hshort : account.position = .short → (1 - feeRate) * account.exposure price = account.value price)
    (hnonneg : 0 ≤ feeRate) (hfee : feeRate < 1) (hprice : 0 < price)
    (hinvested : account.position ≠ .cash) :
    account.exposure price ≤ account.value price / (1 - feeRate) := by
  rw [le_div_iff₀ (sub_pos.mpr hfee), mul_comm]
  cases hposition : account.position with
  | long =>
      rw [← hsound.exposure_of_long hposition]
      have hexposure : 0 ≤ account.exposure price := mul_nonneg (abs_nonneg _) hprice.le
      exact mul_le_of_le_one_left hexposure (by linarith)
  | cash => exact absurd hposition hinvested
  | short => exact (hshort hposition).le

end Account

/-! ### Runs -/

namespace Simulation

variable {terms : Terms Rat} {signal : Series Position} {bars early late : List (Bar Rat)}
  {bar : Bar Rat}

theorem turnOn_unlevered (hterms : terms.Valid) {account : Account Rat} (hsound : account.Sound)
    (hprice : 0 < bar.close) (htraded : (turnOn terms signal account bar).trades ≠ []) :
    (turnOn terms signal account bar).Unlevered terms.feeRate bar.close :=
  Account.turnTo_unlevered hsound hterms.fee_nonneg (by linarith [hterms.fee_lt]) hprice _ _ htraded

/-- A trade dated on a day is one of its turn, so this turn has traded. -/
theorem turnOn_unlevered_of_mem_trades (hterms : terms.Valid)
    (hbars : Tradable (early ++ bar :: late) signal) {trade : Trade Rat}
    (hmem : trade ∈ (outcome terms (early ++ bar :: late) signal).trades)
    (hdate : trade.date = bar.date) :
    trade ∈ (turnOn terms signal (accountAfter terms signal early) bar).trades ∧
      (turnOn terms signal (accountAfter terms signal early) bar).Unlevered terms.feeRate bar.close := by
  have htoday : trade ∈ (turnOn terms signal (accountAfter terms signal early) bar).trades := by
    rw [← filter_trades_eq_turnOn hbars.ascending]
    exact List.mem_filter.mpr ⟨hmem, decide_eq_true hdate⟩
  exact ⟨htoday, turnOn_unlevered hterms (hbars.sound_before hterms) (hbars.close_pos (by simp))
    (List.ne_nil_of_mem htoday)⟩

theorem pointAfter_mem_equity :
    pointAfter terms signal early bar ∈ (outcome terms (early ++ bar :: late) signal).equity := by
  obtain ⟨rest, hequity, _⟩ := exists_equity_outcome_append terms signal (early ++ [bar]) late
  rw [List.append_cons, hequity, equity_outcome_concat]
  exact List.mem_append_left _ (List.mem_append_right _ (List.mem_singleton_self _))

/-- **No leverage at an entry.** On a day with a trade a long position is worth the account, and a short
one is so without the fee. A trade that enters a position is the last one of its day, and so what it has
entered is worth no more than the account with the fee on top. -/
theorem run_enters_unlevered {result : Outcome Rat} (hrun : run terms bars signal = .ok result) :
    (∀ point ∈ result.equity, (∃ trade ∈ result.trades, trade.date = point.date) →
      (point.position = .long → point.exposure = point.portfolioValue) ∧
        (point.position = .short → (1 - terms.feeRate) * point.exposure = point.portfolioValue)) ∧
    ∀ trade ∈ result.trades, trade.positionAfter ≠ .cash →
      ∃ point ∈ result.equity, point.date = trade.date ∧ point.price = trade.price ∧
        point.position = trade.positionAfter ∧ point.capital = trade.capitalAfter ∧
        |point.shares| = trade.quantity ∧
        point.exposure ≤ point.portfolioValue / (1 - terms.feeRate) := by
  obtain ⟨hterms, hbars, rfl⟩ := run_eq_ok_iff.mp hrun
  rw [Terms.check_eq_ok_iff] at hterms
  constructor
  · rintro point hpoint ⟨trade, hmem, hdate⟩
    obtain ⟨before, after, hequity⟩ := List.append_of_mem hpoint
    obtain ⟨early, bar, late, rfl, _, rfl⟩ := exists_bars_of_equity_eq hequity
    obtain ⟨_, hunlevered⟩ := turnOn_unlevered_of_mem_trades hterms hbars hmem hdate
    have hsound := hbars.sound_after hterms
    have hshort := hunlevered.short
    rw [← accountAfter_concat] at hshort
    exact ⟨fun hlong => hsound.exposure_of_long hlong bar.close, hshort⟩
  · intro trade hmem hinvested
    obtain ⟨bar, hbar, hdate⟩ := exists_bar_of_mem_trades hmem
    obtain ⟨early, late, rfl⟩ := List.append_of_mem hbar
    obtain ⟨htoday, hunlevered⟩ := turnOn_unlevered_of_mem_trades hterms hbars hmem hdate
    have hentered := hunlevered.entered trade htoday hinvested
    have hshort := hunlevered.short
    have hsound := hbars.sound_after hterms
    rw [← accountAfter_concat] at hentered hshort
    have hposition : (accountAfter terms signal (early ++ [bar])).position ≠ .cash := by
      rwa [← hentered.position_eq]
    refine ⟨pointAfter terms signal early bar, pointAfter_mem_equity, hdate.symm,
      hentered.price_eq.symm, hentered.position_eq.symm, hentered.capital_eq.symm,
      hentered.quantity_eq.symm, ?_⟩
    exact Account.exposure_le hsound hshort hterms.fee_nonneg (by linarith [hterms.fee_lt])
      (hbars.close_pos hbar) hposition

/-- Both short sales of the samples' market reverse a long position. -/
theorem run_enters_unlevered_sample :
    let result := outcome (Sample.terms .legacy) Sample.bars Sample.signal
    run (Sample.terms .legacy) Sample.bars Sample.signal = .ok result ∧
      ∃ point ∈ result.equity, point.position = .short ∧
        (∃ trade ∈ result.trades, trade.date = point.date) ∧
        (1 - (Sample.terms .legacy).feeRate) * point.exposure = point.portfolioValue := by
  intro result
  have hrun := Sample.run_eq_ok .legacy
  obtain ⟨hpoints, _⟩ := run_enters_unlevered hrun
  have hshort : ∃ point ∈ result.equity, point.position = .short ∧
      ∃ trade ∈ result.trades, trade.date = point.date := by decide +kernel
  obtain ⟨point, hmem, hposition, htraded⟩ := hshort
  exact ⟨hrun, point, hmem, hposition, htraded, (hpoints point hmem htraded).2 hposition⟩

end Simulation

end Backtest
