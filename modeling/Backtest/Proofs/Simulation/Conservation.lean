import Backtest.Performance.Activity
import Backtest.Proofs.Simulation.Balance

/-!
# Conservation of money

With exact scalars the value of a run changes from one day to the next by what the shares held over
night gain, less the commissions of the day's trades. Nothing leaks, in whichever way a position is
entered, left or reversed, and so the final value is the initial capital with all gains and without all
commissions.
-/

namespace Backtest

/-- What an account is worth after the days of some points. -/
def valueAfter (initialCapital : Rat) (points : List (EquityPoint Rat)) : Rat :=
  match points.getLast? with
  | some point => point.portfolioValue
  | none => initialCapital

/-- What the shares held after the days of some points gain when the price moves to `price`. -/
def holdingGain (points : List (EquityPoint Rat)) (price : Rat) : Rat :=
  match points.getLast? with
  | some point => point.shares * (price - point.price)
  | none => 0

/-- What the shares held from every day to the next one gain in all. -/
def holdingGains : List (EquityPoint Rat) → Rat
  | first :: second :: rest =>
    first.shares * (second.price - first.price) + holdingGains (second :: rest)
  | _ => 0

@[simp]
theorem valueAfter_concat (initialCapital : Rat) (points : List (EquityPoint Rat))
    (point : EquityPoint Rat) :
    valueAfter initialCapital (points ++ [point]) = point.portfolioValue := by
  simp [valueAfter]

theorem finalValue_eq_valueAfter (outcome : Outcome Rat) :
    outcome.finalValue = valueAfter outcome.initialCapital outcome.equity := by
  unfold Outcome.finalValue valueAfter
  cases outcome.equity.getLast? <;> rfl

theorem holdingGains_concat (points : List (EquityPoint Rat)) (point : EquityPoint Rat) :
    holdingGains (points ++ [point]) = holdingGains points + holdingGain points point.price := by
  induction points with
  | nil => simp [holdingGains, holdingGain]
  | cons first rest ih =>
      cases rest with
      | nil => simp [holdingGains, holdingGain]
      | cons second rest =>
          have hlast : holdingGain (first :: second :: rest) point.price =
              holdingGain (second :: rest) point.price := by
            simp [holdingGain, List.getLast?_cons_cons]
          rw [List.cons_append, List.cons_append, holdingGains, holdingGains, ← List.cons_append, ih,
            hlast, add_assoc]

theorem commissions_eq_totalCommission (trades : List (Trade Rat)) :
    commissions trades = Activity.totalCommission trades :=
  (Scalar.sum_rat _).symm

namespace Simulation

variable {terms : Terms Rat} {signal : Series Position} {bars : List (Bar Rat)} {bar : Bar Rat}

theorem valueAfter_add_holdingGain (bars : List (Bar Rat)) (price : Rat) :
    valueAfter terms.initialCapital (outcome terms bars signal).equity +
        holdingGain (outcome terms bars signal).equity price =
      (accountAfter terms signal bars).value price := by
  rcases List.eq_nil_or_concat bars with rfl | ⟨before, bar, rfl⟩
  · simp [valueAfter, holdingGain, Account.opening, Account.value]
  · rw [List.concat_eq_append, equity_outcome_concat, valueAfter_concat]
    simp only [holdingGain, List.getLast?_concat, pointAfter, EquityPoint.after, Account.value]
    ring

theorem portfolioValue_pointAfter (hterms : terms.Valid) (hclose : ∀ bar ∈ bars, 0 < bar.close)
    (hbar : 0 < bar.close) :
    (pointAfter terms signal bars bar).portfolioValue =
      valueAfter terms.initialCapital (outcome terms bars signal).equity +
        holdingGain (outcome terms bars signal).equity bar.close -
        commissions (turnOn terms signal (accountAfter terms signal bars) bar).trades := by
  have hsound : (accountAfter terms signal bars).Sound := accountAfter_sound hterms hclose
  calc (pointAfter terms signal bars bar).portfolioValue
      = (turnOn terms signal (accountAfter terms signal bars) bar).account.value bar.close := by
        rw [← accountAfter_concat]
        rfl
    _ = (accountAfter terms signal bars).value bar.close -
          commissions (turnOn terms signal (accountAfter terms signal bars) bar).trades :=
        (turnOn_balanced hterms hsound hbar).value_eq
    _ = _ := by rw [valueAfter_add_holdingGain]

/-- By induction on the days: each adds its gain and its commissions to both sides. -/
theorem valueAfter_outcome (hterms : terms.Valid) (hclose : ∀ bar ∈ bars, 0 < bar.close) :
    valueAfter terms.initialCapital (outcome terms bars signal).equity =
      terms.initialCapital + holdingGains (outcome terms bars signal).equity -
        commissions (outcome terms bars signal).trades := by
  induction bars using List.reverseRecOn with
  | nil => simp [valueAfter, holdingGains]
  | append_singleton bars bar ih =>
      have hbars : ∀ other ∈ bars, 0 < other.close := fun other hother =>
        hclose other (List.mem_append_left _ hother)
      have hprice : (pointAfter terms signal bars bar).price = bar.close := rfl
      rw [equity_outcome_concat, trades_outcome_concat, valueAfter_concat, holdingGains_concat,
        commissions_append, portfolioValue_pointAfter hterms hbars (hclose bar (by simp)), ih hbars,
        hprice]
      ring

/-- **Conservation of money.** Valid terms and tradable bars always give a result. Its points stand on
the days of the bars. Each is worth what the point before it was worth, with the gain of the shares
held since and without the commissions of its day; before the first day there are the initial capital
and no shares. -/
theorem run_conserves_value (hterms : terms.Valid) (hbars : Tradable bars signal) :
    ∃ result, run terms bars signal = .ok result ∧
      (result.equity.map fun point => (point.date, point.price)) =
        (bars.map fun bar => (bar.date, bar.close)) ∧
      (∀ before point after, result.equity = before ++ point :: after →
        point.portfolioValue =
          valueAfter terms.initialCapital before + holdingGain before point.price -
            commissions (result.trades.filter fun trade => trade.date = point.date)) ∧
      result.finalValue =
        terms.initialCapital + holdingGains result.equity - Activity.totalCommission result.trades := by
  have hclose : ∀ bar ∈ bars, 0 < bar.close := fun _ => hbars.close_pos
  refine ⟨outcome terms bars signal,
    run_eq_ok_iff.mpr ⟨Terms.check_eq_ok_iff.mpr hterms, hbars, rfl⟩, map_equity_outcome bars, ?_, ?_⟩
  · intro before point after hequity
    obtain ⟨early, bar, late, rfl, rfl, rfl⟩ := exists_bars_of_equity_eq hequity
    have hearly : ∀ other ∈ early, 0 < other.close := fun other hother =>
      hclose other (List.mem_append_left _ hother)
    have hdate : (pointAfter terms signal early bar).date = bar.date := rfl
    rw [portfolioValue_pointAfter hterms hearly (hclose bar (by simp)), hdate,
      filter_trades_eq_turnOn hbars.ascending]
    rfl
  · rw [finalValue_eq_valueAfter, ← commissions_eq_totalCommission]
    exact valueAfter_outcome hterms hclose

theorem run_conserves_value_sample :
    (Sample.terms .legacy).Valid ∧ Tradable Sample.bars Sample.signal ∧
      ∃ result, run (Sample.terms .legacy) Sample.bars Sample.signal = .ok result ∧
        result.finalValue =
          10000 + holdingGains result.equity - Activity.totalCommission result.trades := by
  obtain ⟨result, hrun, _, _, hfinal⟩ :=
    run_conserves_value (Sample.terms_valid .legacy) Sample.tradable
  exact ⟨Sample.terms_valid .legacy, Sample.tradable, result, hrun, hfinal⟩

end Simulation

end Backtest
