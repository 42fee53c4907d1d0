import Mathlib.Algebra.Order.Field.Rat
import Mathlib.Data.List.GetD
import Backtest.Performance.Tail
import Backtest.Proofs.Performance.Shape
import Backtest.Proofs.Scalar.Partial

/-!
# Divisions of the statistics

A statistic divides by the number of the returns, by a number little below it, or by a measure of how much
the returns vary. Both are looked at before, and where one of them does not suffice the statistic is zero by
definition. So the statistics of any returns are the same in partial scalars.
-/

namespace Backtest.Returns

open PartialRat

variable {α β : Type} {answers : Answers}

def GainRatio.map (f : α → β) : GainRatio α → GainRatio β
  | finite value => finite (f value)
  | unbounded => unbounded

section Shortfall

variable [Scalar α]

/-- How far a return is below the target, squared. -/
def squaredShortfall (target value : α) : α :=
  let shortfall := if value - target < 0 then value - target else 0
  shortfall * shortfall

theorem sortinoRatio_eq [Roots α] {returns : List α} (hsome : returns ≠ []) (riskFreeRate : α) :
    sortinoRatio returns riskFreeRate =
      let target := riskFreeRate / tradingDays
      let spread := Roots.sqrt (Scalar.sum (returns.map (squaredShortfall target)) / count returns)
      if spread == 0 then 0 else (mean returns - target) / spread * yearlyFactor :=
  if_neg (by simpa using hsome)

end Shortfall

theorem count_map_of (returns : List Rat) :
    (count (returns.map of) : PartialRat answers) = of (count returns) := by
  rw [count, List.length_map]
  rfl

theorem count_ne_zero {returns : List Rat} (hsome : returns ≠ []) : count returns ≠ 0 :=
  length_ne_zero hsome

theorem tradingDays_eq : (tradingDays : PartialRat answers) = of tradingDays := rfl

theorem mean_map_of (returns : List Rat) :
    (mean (returns.map of) : PartialRat answers) = of (mean returns) := by
  rcases eq_or_ne returns [] with rfl | hsome
  · rfl
  · have hisEmpty : returns.isEmpty = false := by simpa using hsome
    simp only [mean, List.isEmpty_map, hisEmpty, sum_map_of, count_map_of,
      of_div_of (count_ne_zero hsome)]
    rfl

theorem ofTotals_of (gains losses : Rat) :
    (GainRatio.ofTotals (of gains) (of losses) : GainRatio (PartialRat answers)) =
      (GainRatio.ofTotals gains losses).map of := by
  simp only [GainRatio.ofTotals, zero_eq, of_lt_of]
  split_ifs with hlosses
  · rw [of_div_of hlosses.ne']
    rfl
  · rfl
  · rfl

theorem gainRatio_map_of (amounts : List Rat) :
    (GainRatio.of (amounts.map of) : GainRatio (PartialRat answers)) =
      (GainRatio.of amounts).map of := by
  have hgains : (amounts.map (of : Rat → PartialRat answers)).filter (fun amount => 0 < amount) =
      (amounts.filter fun amount => 0 < amount).map of := by
    simp [List.filter_map, Function.comp_def]
  have hlosses : ((amounts.map (of : Rat → PartialRat answers)).filter
      (fun amount => amount < 0)).map Scalar.magnitude =
        ((amounts.filter fun amount => amount < 0).map Scalar.magnitude).map of := by
    simp [List.filter_map, Function.comp_def]
  rw [GainRatio.of, hgains, hlosses, sum_map_of, sum_map_of, ofTotals_of]
  rfl

theorem tradingDays_ne_zero : (tradingDays : Rat) ≠ 0 := by norm_num [tradingDays]

theorem squaredShortfall_of (target value : Rat) :
    squaredShortfall (of target : PartialRat answers) (of value) = of (squaredShortfall target value) := by
  simp only [squaredShortfall, zero_eq, of_sub_of, of_lt_of]
  split_ifs <;> rfl

theorem omegaRatio_map_of (returns : List Rat) :
    (omegaRatio (returns.map of) : GainRatio (PartialRat answers)) = (omegaRatio returns).map of :=
  gainRatio_map_of returns

section Rooted

variable [Roots Rat]

theorem yearlyFactor_eq : (yearlyFactor : PartialRat answers) = of yearlyFactor := rfl

theorem deviation_map_of (returns : List Rat) :
    (deviation (returns.map of) : PartialRat answers) = of (deviation returns) := by
  by_cases hfew : returns.length < 2
  · simp [deviation, hfew]
  · have hdivisor : ((returns.length - 1 : Nat) : Rat) ≠ 0 := Nat.cast_ne_zero.mpr (by omega)
    have hsquares : (returns.map (of : Rat → PartialRat answers)).map (fun value =>
          (value - of (mean returns)) * (value - of (mean returns))) =
        (returns.map fun value => (value - mean returns) * (value - mean returns)).map of := by
      simp [Function.comp_def]
    simp only [deviation, List.length_map, if_neg hfew, mean_map_of, hsquares, sum_map_of,
      natCast_eq, of_div_of hdivisor, sqrt_of]

theorem volatility_map_of (returns : List Rat) :
    (volatility (returns.map of) : PartialRat answers) = of (volatility returns) := by
  rw [volatility, deviation_map_of, yearlyFactor_eq, of_mul_of, volatility]

theorem sharpeRatio_map_of (returns : List Rat) (riskFreeRate : Rat) :
    (sharpeRatio (returns.map of) (of riskFreeRate) : PartialRat answers) =
      of (sharpeRatio returns riskFreeRate) := by
  by_cases hspread : deviation returns = 0
  · simp [sharpeRatio, deviation_map_of, hspread]
  · simp only [sharpeRatio, deviation_map_of, zero_eq, of_beq_of, beq_iff_eq,
      if_neg hspread, mean_map_of, tradingDays_eq, of_div_of tradingDays_ne_zero,
      of_sub_of, of_div_of hspread, yearlyFactor_eq, of_mul_of]

theorem sortinoRatio_map_of (returns : List Rat) (riskFreeRate : Rat) :
    (sortinoRatio (returns.map of) (of riskFreeRate) : PartialRat answers) =
      of (sortinoRatio returns riskFreeRate) := by
  rcases eq_or_ne returns [] with rfl | hsome
  · rfl
  have hsome' : returns.map (of : Rat → PartialRat answers) ≠ [] := by simpa using hsome
  have hshortfalls (target : Rat) : (returns.map (of : Rat → PartialRat answers)).map
        (squaredShortfall (of target)) = (returns.map (squaredShortfall target)).map of := by
    rw [List.map_map, List.map_map]
    exact List.map_congr_left fun value _ => squaredShortfall_of target value
  rw [sortinoRatio_eq hsome, sortinoRatio_eq hsome']
  simp only [tradingDays_eq, of_div_of tradingDays_ne_zero, hshortfalls,
    sum_map_of, count_map_of, of_div_of (count_ne_zero hsome), sqrt_of,
    zero_eq, of_beq_of, beq_iff_eq]
  split_ifs with hspread
  · rfl
  · rw [mean_map_of, of_sub_of, of_div_of hspread, yearlyFactor_eq,
      of_mul_of]

end Rooted

/-! ### Shape -/

theorem centralMoment_map_of {power : PartialRat answers → PartialRat answers} {power' : Rat → Rat}
    (hpower : ∀ distance, power (of distance) = of (power' distance)) {returns : List Rat}
    (hsome : returns ≠ []) :
    centralMoment power (returns.map of) = of (centralMoment power' returns) := by
  rw [centralMoment, mean_map_of, List.foldl_map, zero_eq,
    foldl_of _ fun total value => total + power' (value - mean returns),
    count_map_of, of_div_of (count_ne_zero hsome), centralMoment]
  intro total value
  rw [of_sub_of, hpower, of_add_of]

theorem secondMoment_nonneg (returns : List Rat) : 0 ≤ secondMoment returns := by
  rw [secondMoment, centralMoment_rat]
  refine div_nonneg (List.sum_nonneg ?_) (Nat.cast_nonneg _)
  exact List.forall_mem_map.mpr fun value _ => mul_self_nonneg (value - mean returns)

section Moments

variable {returns : List Rat}

theorem secondMoment_map_of (hsome : returns ≠ []) :
    (secondMoment (returns.map of) : PartialRat answers) = of (secondMoment returns) :=
  centralMoment_map_of (fun _ => rfl) hsome

theorem thirdMoment_map_of (hsome : returns ≠ []) :
    (thirdMoment (returns.map of) : PartialRat answers) = of (thirdMoment returns) :=
  centralMoment_map_of (fun _ => rfl) hsome

theorem fourthMoment_map_of (hsome : returns ≠ []) :
    (fourthMoment (returns.map of) : PartialRat answers) = of (fourthMoment returns) :=
  centralMoment_map_of (fun _ => rfl) hsome

/-- With enough returns, their number is not one of the small numbers that are taken off it. -/
theorem count_sub_ne_zero {least : Nat} (hlength : least < returns.length) :
    count returns - (least : Rat) ≠ 0 :=
  sub_ne_zero.mpr (Nat.cast_lt.mpr hlength).ne'

theorem skewness_map_of [Roots Rat]
    (hpower : ∀ base exponent : Rat, 0 < base → Roots.power base exponent ≠ 0) (returns : List Rat) :
    (skewness (returns.map of) : PartialRat answers) = of (skewness returns) := by
  by_cases hfew : returns.length < 3
  · simp [skewness, hfew]
  have hsome : returns ≠ [] := by
    rintro rfl
    exact hfew (by decide)
  by_cases hsecond : secondMoment returns = 0
  · simp [skewness, hfew, secondMoment_map_of hsome, hsecond]
  have hpositive : 0 < secondMoment returns := (secondMoment_nonneg returns).lt_of_ne' hsecond
  have hraw := hpower _ (Scalar.ratio 3 2) hpositive
  have hcount : count returns - ((2 : Nat) : Rat) ≠ 0 := count_sub_ne_zero (by omega)
  simp only [skewness, List.length_map, if_neg hfew, secondMoment_map_of hsome, zero_eq,
    of_beq_of, beq_iff_eq, if_neg hsecond, count_map_of, thirdMoment_map_of hsome,
    ratio_eq two_ne_zero 3, power_of, of_div_of hraw, one_eq,
    natCast_eq, of_sub_of, of_mul_of, sqrt_of,
    of_div_of hcount]

theorem kurtosis_map_of (returns : List Rat) :
    (kurtosis (returns.map of) : PartialRat answers) = of (kurtosis returns) := by
  by_cases hfew : returns.length < 4
  · simp [kurtosis, hfew]
  have hsome : returns ≠ [] := by
    rintro rfl
    exact hfew (by decide)
  by_cases hsecond : secondMoment returns = 0
  · simp [kurtosis, hfew, secondMoment_map_of hsome, hsecond]
  have hsquare : secondMoment returns * secondMoment returns ≠ 0 := mul_ne_zero hsecond hsecond
  have hcounts : (count returns - ((2 : Nat) : Rat)) * (count returns - ((3 : Nat) : Rat)) ≠ 0 :=
    mul_ne_zero (count_sub_ne_zero (by omega)) (count_sub_ne_zero (by omega))
  simp only [kurtosis, List.length_map, if_neg hfew, secondMoment_map_of hsome, zero_eq,
    of_beq_of, beq_iff_eq, if_neg hsecond, count_map_of, fourthMoment_map_of hsome,
    of_mul_of, of_div_of hsquare, one_eq, natCast_eq,
    of_sub_of, of_add_of, of_div_of hcounts]

end Moments

/-! ### Tail -/

theorem sorted_map_of (returns : List Rat) :
    (sorted (returns.map of) : List (PartialRat answers)) = (sorted returns).map of := by
  rw [sorted, sorted]
  exact (List.map_mergeSort (f := of) fun _ _ _ _ => (precedes_of _ _).symm).symm

theorem quantilePlace_map_of (returns : List Rat) (confidence : Rat) :
    (quantilePlace (returns.map of) (of confidence) : PartialRat answers) =
      of (quantilePlace returns confidence) := by
  simp only [quantilePlace, List.length_map, natCast_eq, zero_eq, one_eq,
    of_sub_of, clamp_of, of_mul_of]

theorem lowerPlace_map_of (returns : List Rat) (confidence : Rat) :
    lowerPlace (returns.map (of : Rat → PartialRat answers)) (of confidence) =
      lowerPlace returns confidence := by
  rw [lowerPlace, quantilePlace_map_of, floorNat_of, lowerPlace]

theorem upperPlace_map_of (returns : List Rat) (confidence : Rat) :
    upperPlace (returns.map (of : Rat → PartialRat answers)) (of confidence) =
      upperPlace returns confidence := by
  rw [upperPlace, quantilePlace_map_of, ceilNat_of, upperPlace]

theorem valueAtRisk_map_of (returns : List Rat) (confidence : Rat) :
    (valueAtRisk (returns.map of) (of confidence) : PartialRat answers) =
      of (valueAtRisk returns confidence) := by
  have hplace (place : Nat) : ((sorted returns).map (of : Rat → PartialRat answers)).getD place (of 0) =
      of ((sorted returns).getD place 0) := List.getD_map _ _ of
  simp only [valueAtRisk, List.isEmpty_map, sorted_map_of, quantilePlace_map_of, lowerPlace_map_of,
    upperPlace_map_of, zero_eq, hplace, natCast_eq, of_sub_of, of_mul_of, of_add_of]
  split_ifs <;> rfl

theorem conditionalValueAtRisk_map_of (returns : List Rat) (confidence : Rat) :
    (conditionalValueAtRisk (returns.map of) (of confidence) : PartialRat answers) =
      of (conditionalValueAtRisk returns confidence) := by
  have htail (limit : Rat) : (returns.map (of : Rat → PartialRat answers)).filter
      (fun value => value ≤ of limit) = (returns.filter fun value => value ≤ limit).map of := by
    simp [List.filter_map, Function.comp_def]
  simp only [conditionalValueAtRisk, valueAtRisk_map_of, htail, List.isEmpty_map, mean_map_of]
  split_ifs <;> rfl

end Backtest.Returns
