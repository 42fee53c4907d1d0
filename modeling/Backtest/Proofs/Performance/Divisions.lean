import Mathlib.Algebra.Order.Field.Rat
import Backtest.Performance
import Backtest.Proofs.Aggregate.Divisions
import Backtest.Proofs.Aggregate.Monotonicity
import Backtest.Proofs.Performance.Statistics
import Backtest.Proofs.Simulation.Divisions

/-!
# Divisions of the figures

Every figure of a run is a quotient or is made of quotients, and each of them is asked for only where it
is defined: the number of returns is looked at before it is divided by, or by less than it; a capital, a
peak, a loss and a deviation are looked at themselves. So the figures of every run are the same in partial
scalars, of runs without days, without trades, without gains or without value too.
-/

namespace Backtest

variable {α β : Type}

def RiskTerms.map (f : α → β) (risk : RiskTerms α) : RiskTerms β :=
  ⟨f risk.riskFreeRate, f risk.varConfidence⟩

def Drawdown.map (f : α → β) (drawdown : Drawdown α) : Drawdown β := ⟨f drawdown.depth, drawdown.span⟩

def Performance.map (f : α → β) (performance : Performance α) : Performance β where
  totalReturn := f performance.totalReturn
  annualRate := f performance.annualRate
  volatility := f performance.volatility
  sharpeRatio := f performance.sharpeRatio
  sortinoRatio := f performance.sortinoRatio
  omegaRatio := performance.omegaRatio.map f
  calmarRatio := f performance.calmarRatio
  drawdown := performance.drawdown.map f
  valueAtRisk := f performance.valueAtRisk
  conditionalValueAtRisk := f performance.conditionalValueAtRisk
  skewness := f performance.skewness
  kurtosis := f performance.kurtosis
  winRate := f performance.winRate
  roundTripWinRate := f performance.roundTripWinRate
  profitFactor := performance.profitFactor.map f
  averageDuration := f performance.averageDuration
  trades := performance.trades
  roundTrips := performance.roundTrips
  finalValue := f performance.finalValue
  totalCommission := f performance.totalCommission
  exposure := f performance.exposure

open PartialRat

variable {answers : Answers}

/-! ### Growth and drawdown -/

namespace Growth

theorem totalReturn_of (initial final : Rat) :
    (totalReturn (of initial) (of final) : PartialRat answers) = of (totalReturn initial final) := by
  simp only [totalReturn, zero_eq, of_lt_of]
  split_ifs with hinitial
  · rw [of_div_of hinitial.ne', one_eq, of_sub_of]
  · rfl

theorem daysPerYear_pos : (0 : Rat) < daysPerYear := by norm_num [daysPerYear, Scalar.ratio]

theorem annualRate_of [Roots Rat] (initial final : Rat) (start finish : Date) :
    (annualRate (of initial) (of final) start finish : PartialRat answers) =
      of (annualRate initial final start finish) := by
  have hdaysPerYear : (daysPerYear : PartialRat answers) = of daysPerYear := ratio_eq (by decide) 36525
  simp only [annualRate, zero_eq, one_eq, intCast_eq, hdaysPerYear, of_le_of]
  split_ifs with hnone hlost
  · rfl
  · rfl
  · obtain ⟨hdays, hinitial⟩ := not_or.mp hnone
    have hyears : ((start.daysTo finish : Int) : Rat) / daysPerYear ≠ 0 :=
      (div_pos (Int.cast_pos.mpr (not_le.mp hdays)) daysPerYear_pos).ne'
    rw [of_div_of daysPerYear_pos.ne', of_div_of (not_le.mp hinitial).ne', of_div_of hyears, power_of,
      of_sub_of]

theorem calmarRatio_of (annualRate drawdown : Rat) :
    (calmarRatio (of annualRate) (of drawdown) : PartialRat answers) =
      of (calmarRatio annualRate drawdown) := by
  simp only [calmarRatio, zero_eq, of_lt_of, magnitude_of]
  split_ifs with hdrawdown
  · have hmagnitude : Scalar.magnitude drawdown ≠ 0 := by
      rw [Scalar.magnitude_rat]
      exact abs_ne_zero.mpr hdrawdown.ne
    exact of_div_of hmagnitude _
  · rfl

end Growth

namespace Drawdown

theorem scan_map_of (peak : Rat) (peakDate : Date) (worst : Drawdown Rat)
    (points : List (EquityPoint Rat)) :
    (scan (of peak) peakDate (worst.map of) (points.map (EquityPoint.map of)) :
        Drawdown (PartialRat answers)) =
      (scan peak peakDate worst points).map of := by
  induction points generalizing peak peakDate worst with
  | nil => rfl
  | cons point rest ih =>
      have hvalue : (point.map of : EquityPoint (PartialRat answers)).portfolioValue =
          of point.portfolioValue := rfl
      have hworst : (worst.map of : Drawdown (PartialRat answers)).depth = of worst.depth := rfl
      simp only [List.map_cons, scan, hvalue, hworst, zero_eq, of_lt_of, of_le_of, of_sub_of]
      by_cases hhigher : peak < point.portfolioValue
      · rw [if_pos hhigher, if_pos hhigher]
        exact ih _ _ _
      rw [if_neg hhigher, if_neg hhigher]
      by_cases hworthless : peak ≤ 0
      · rw [if_pos hworthless, if_pos hworthless]
        exact ih _ _ _
      rw [if_neg hworthless, if_neg hworthless, of_div_of (not_le.mp hworthless).ne']
      simp only [of_lt_of]
      split_ifs
      · exact ih peak peakDate ⟨(point.portfolioValue - peak) / peak, some (peakDate, point.date)⟩
      · exact ih _ _ _

theorem ofCurve_map_of (curve : List (EquityPoint Rat)) :
    (ofCurve (curve.map (EquityPoint.map of)) : Drawdown (PartialRat answers)) =
      (ofCurve curve).map of := by
  cases curve with
  | nil => rfl
  | cons first rest => exact scan_map_of first.portfolioValue first.date none (first :: rest)

end Drawdown

/-! ### Activity -/

namespace Activity

/-- A test that says the same of a member before and after it is read in other scalars. -/
theorem share_map_of {γ δ : Type} {f : γ → δ} {test : δ → Bool} {test' : γ → Bool}
    (htest : ∀ member, test (f member) = test' member) (members : List γ) :
    (share test (members.map f) : PartialRat answers) = of (share test' members) := by
  rcases eq_or_ne members [] with rfl | hsome
  · rfl
  have htests : test ∘ f = test' := funext htest
  simp only [share, List.isEmpty_map, List.filter_map, htests, List.length_map, natCast_eq,
    of_div_of (length_ne_zero hsome)]
  split_ifs <;> rfl

theorem winRate_map_of (trades : List (Trade Rat)) :
    (winRate (trades.map (Trade.map of)) : PartialRat answers) = of (winRate trades) := by
  have hsales : (trades.map (Trade.map (of : Rat → PartialRat answers))).filter
      (fun trade => trade.kind = .sell) =
        (trades.filter fun trade => trade.kind = .sell).map (Trade.map of) := List.filter_map
  rw [winRate, hsales]
  exact share_map_of (fun trade => by simp [Trade.map]) _

theorem roundTripWinRate_map_of (roundTrips : List (RoundTrip Rat)) :
    (roundTripWinRate (roundTrips.map (RoundTrip.map of)) : PartialRat answers) =
      of (roundTripWinRate roundTrips) :=
  share_map_of (fun trip => by simp [RoundTrip.map]) roundTrips

theorem profitFactor_map_of (roundTrips : List (RoundTrip Rat)) :
    (profitFactor (roundTrips.map (RoundTrip.map of)) : Returns.GainRatio (PartialRat answers)) =
      (profitFactor roundTrips).map of := by
  rw [profitFactor, profitFactor, ← Returns.gainRatio_map_of, List.map_map, List.map_map]
  rfl

theorem averageDuration_map_of (roundTrips : List (RoundTrip Rat)) :
    (averageDuration (roundTrips.map (RoundTrip.map of)) : PartialRat answers) =
      of (averageDuration roundTrips) := by
  rcases eq_or_ne roundTrips [] with rfl | hsome
  · rfl
  have hdurations : (roundTrips.map (RoundTrip.map (of : Rat → PartialRat answers))).map
        (fun trip => (trip.durationDays : PartialRat answers)) =
      (roundTrips.map fun trip => (trip.durationDays : Rat)).map of := by
    rw [List.map_map, List.map_map]
    rfl
  simp only [averageDuration, List.isEmpty_map, hdurations, sum_map_of, List.length_map,
    natCast_eq, of_div_of (length_ne_zero hsome)]
  split_ifs <;> rfl

theorem exposure_map_of (curve : List (EquityPoint Rat)) :
    (exposure (curve.map (EquityPoint.map of)) : PartialRat answers) = of (exposure curve) :=
  share_map_of (fun _ => rfl) curve

theorem totalCommission_map_of (trades : List (Trade Rat)) :
    (totalCommission (trades.map (Trade.map of)) : PartialRat answers) = of (totalCommission trades) := by
  rw [totalCommission, totalCommission, ← sum_map_of, List.map_map, List.map_map]
  rfl

end Activity

/-! ### The figures of a run -/

namespace Performance

theorem finalValue_map (f : α → β) (outcome : Outcome α) :
    (outcome.map f).finalValue = f outcome.finalValue := by
  simp only [Outcome.finalValue, Outcome.map, List.getLast?_map]
  cases outcome.equity.getLast? <;> rfl

theorem dailyReturns_map (f : α → β) (curve : List (EquityPoint α)) :
    dailyReturns (curve.map (EquityPoint.map f)) = (dailyReturns curve).map f := by
  rw [dailyReturns, dailyReturns, ← List.map_drop, List.map_map, List.map_map]
  rfl

section Rooted

variable [Roots Rat]

theorem annualRateOf_map_of (outcome : Outcome Rat) :
    (annualRateOf (outcome.map of) : PartialRat answers) = of (annualRateOf outcome) := by
  simp only [annualRateOf, finalValue_map]
  simp only [Outcome.map, List.head?_map, List.getLast?_map]
  cases outcome.equity.head? with
  | none => rfl
  | some first =>
      cases outcome.equity.getLast? with
      | none => rfl
      | some last => exact Growth.annualRate_of _ _ _ _

theorem ofOutcome_map_of (hpower : ∀ base exponent : Rat, 0 < base → Roots.power base exponent ≠ 0)
    (outcome : Outcome Rat) (risk : RiskTerms Rat) :
    (ofOutcome (outcome.map of) (risk.map of) : Performance (PartialRat answers)) =
      (ofOutcome outcome risk).map of := by
  have hreturns : dailyReturns (outcome.map (of : Rat → PartialRat answers)).equity =
      (dailyReturns outcome.equity).map of := dailyReturns_map of outcome.equity
  have hdrawdown : Drawdown.ofCurve (outcome.map (of : Rat → PartialRat answers)).equity =
      (Drawdown.ofCurve outcome.equity).map of := Drawdown.ofCurve_map_of outcome.equity
  simp only [ofOutcome, hreturns, hdrawdown, finalValue_map, annualRateOf_map_of,
    Returns.volatility_map_of]
  simp only [Outcome.map, RiskTerms.map, map, Drawdown.map, List.length_map, Growth.totalReturn_of,
    Growth.calmarRatio_of, Returns.sharpeRatio_map_of, Returns.sortinoRatio_map_of,
    Returns.omegaRatio_map_of, Returns.valueAtRisk_map_of, Returns.conditionalValueAtRisk_map_of,
    Returns.skewness_map_of hpower, Returns.kurtosis_map_of, Activity.winRate_map_of,
    Activity.roundTripWinRate_map_of, Activity.profitFactor_map_of, Activity.averageDuration_map_of,
    Activity.totalCommission_map_of, Activity.exposure_map_of]

/-- **Nothing is divided by zero.** In partial scalars a quotient is undefined unless its divisor is a number
other than zero, what is computed with an undefined scalar is undefined, and every test on it may come out
in either way. Runs, combinations and figures are all the same there as in exact scalars, whichever way
these tests come out, so none of them is made with the quotient of a division by zero. This holds of every
run and every combination, refused or not, and of the figures of anything that a run could leave behind:
without days, on a single day, without trades, or when the account is worth nothing or less. The roots and
powers may be any functions, as long as no power of a positive number is zero. -/
theorem no_division_by_zero
    (hpower : ∀ base exponent : Rat, 0 < base → Roots.power base exponent ≠ 0) (answers : Answers) :
    (∀ (terms : Terms Rat) (bars : List (Bar Rat)) (signal : Series Position),
      Simulation.run (terms.map of) (bars.map (Bar.map of)) signal =
        (Simulation.run terms bars signal).map (Outcome.map (of : Rat → PartialRat answers))) ∧
    (∀ (signals : List NamedSignal) (method : Aggregate.Method Rat),
      Aggregate.combine signals (method.map of) =
        (Aggregate.combine signals method).map (Combination.map (of : Rat → PartialRat answers))) ∧
    ∀ (outcome : Outcome Rat) (risk : RiskTerms Rat),
      ofOutcome (outcome.map of) (risk.map of) =
        (ofOutcome outcome risk).map (of : Rat → PartialRat answers) :=
  ⟨Simulation.run_map_of, Aggregate.combine_map_of, ofOutcome_map_of hpower⟩

end Rooted

namespace Sample

/-- Every test on an undefined scalar fails. -/
def failing : Answers :=
  ⟨fun _ _ => false, fun _ _ => false, fun _ _ => false, fun _ _ => false, false, 0, 0, "", fun _ => ""⟩

/-- Two days of an account that is worth nothing. -/
def worthless : Outcome Rat := ⟨0, [⟨⟨0⟩, 0, 1, .cash, 0, 0, 0⟩, ⟨⟨1⟩, 0, 1, .cash, 0, 0, 0⟩], [], []⟩

theorem power_ne_zero (base exponent : Rat) (hbase : 0 < base) :
    Returns.Sample.roots.power base exponent ≠ 0 := by
  have hnum : 0 < Int.sqrt base.num := by
    have hnat : 0 < base.num.toNat := by
      have hpos : 0 < base.num := Rat.num_pos.mpr hbase
      omega
    exact Int.natCast_pos.mpr (Nat.sqrt_pos.mpr hnat)
  have hden : Nat.sqrt base.den ≠ 0 := (Nat.sqrt_pos.mpr base.den_pos).ne'
  exact zpow_ne_zero _ ((Rat.mkRat_eq_zero hden).not.mpr hnum.ne')

end Sample

theorem no_division_by_zero_sample :
    letI := Returns.Sample.roots
    let embed : Rat → PartialRat Sample.failing := of
    let terms := Simulation.Sample.terms .legacy
    let outcome := Simulation.outcome terms Simulation.Sample.bars Simulation.Sample.signal
    (∀ base exponent : Rat, 0 < base → Roots.power base exponent ≠ 0) ∧
      Simulation.run (terms.map embed) (Simulation.Sample.bars.map (Bar.map embed))
        Simulation.Sample.signal = .ok (outcome.map embed) ∧
      (∃ combination : Combination Rat, Aggregate.combine Aggregate.Sample.lower
        ((Aggregate.Method.weighted (some Aggregate.Sample.shares)).map embed) =
          .ok (combination.map embed) ∧
        combination.weights = some [("trend", 3 / 4), ("revert", 1 / 4)]) ∧
      (ofOutcome (Sample.worthless.map embed) (RiskTerms.default.map embed)).totalReturn = 0 := by
  let _ := Returns.Sample.roots
  obtain ⟨hrun, hcombine, hfigures⟩ := no_division_by_zero Sample.power_ne_zero Sample.failing
  refine ⟨Sample.power_ne_zero, ?_, ?_, ?_⟩
  · rw [hrun, Simulation.Sample.run_eq_ok]
    rfl
  · have hsucceeds : succeedsWith
        (fun combination => combination.weights = some [("trend", 3 / 4), ("revert", 1 / 4)])
        (Aggregate.combine Aggregate.Sample.lower (.weighted (some Aggregate.Sample.shares))) = true := by
      decide +kernel
    obtain ⟨combination, hcombination, hweights⟩ := exists_of_succeedsWith hsucceeds
    rw [hcombine, hcombination]
    exact ⟨combination, rfl, of_decide_eq_true hweights⟩
  · rw [hfigures]
    rfl

end Performance

end Backtest
