import Mathlib.Algebra.BigOperators.Ring.List
import Mathlib.Algebra.Order.BigOperators.Group.List
import Mathlib.Algebra.Order.Field.Rat
import Mathlib.Data.Rat.Sqrt
import Mathlib.Tactic.Ring
import Backtest.Performance.Shape
import Backtest.Proofs.Performance.Mean

/-!
# The shape of the returns

Shape does not depend on where the returns lie, nor on their unit. An affine change of the returns moves
their mean along, so it turns every distance to the mean into a multiple of itself, and a central moment is
multiplied by a power of the same factor. Skewness and kurtosis are quotients of moments in which these
factors cancel. Whether they count as zero instead depends on the number of returns and on whether all are
alike, and neither changes.
-/

namespace Backtest.Returns

variable {returns : List Rat} {scale : Rat}

/-- The returns in another unit, and moved. -/
def affine (scale shift : Rat) (returns : List Rat) : List Rat :=
  returns.map fun value => scale * value + shift

@[simp]
theorem length_affine (scale shift : Rat) (returns : List Rat) :
    (affine scale shift returns).length = returns.length := List.length_map _

theorem map_add_eq_affine (shift : Rat) (returns : List Rat) :
    returns.map (· + shift) = affine 1 shift returns := by
  simp only [affine, one_mul]

theorem map_mul_eq_affine (scale : Rat) (returns : List Rat) :
    returns.map (scale * ·) = affine scale 0 returns := by
  simp only [affine, add_zero]

theorem map_neg_eq_affine (returns : List Rat) : returns.map (-·) = affine (-1) 0 returns := by
  simp only [affine, neg_one_mul, add_zero]

/-! ### Moments -/

theorem mean_affine (hsome : returns ≠ []) (scale shift : Rat) :
    mean (affine scale shift returns) = scale * mean returns + shift := by
  have hlength : (returns.length : Rat) ≠ 0 := (length_pos hsome).ne'
  rw [mean_rat, mean_rat, length_affine, affine, List.sum_map_add, List.sum_map_mul_left, List.map_id',
    List.map_const', List.sum_replicate, nsmul_eq_mul, add_div, mul_div_cancel_left₀ _ hlength,
    mul_div_assoc]

theorem centralMoment_rat (power : Rat → Rat) (returns : List Rat) :
    centralMoment power returns =
      (returns.map fun value => power (value - mean returns)).sum / returns.length := by
  rw [List.sum_eq_foldl, List.foldl_map]
  rfl

/-- The powers of the distances to the mean, all multiplied by one factor. -/
theorem sum_powers_affine (power : Rat → Rat) {factor : Rat}
    (hpower : ∀ distance, power (scale * distance) = factor * power distance) (shift : Rat)
    (returns : List Rat) :
    ((affine scale shift returns).map fun value =>
        power (value - mean (affine scale shift returns))).sum =
      factor * (returns.map fun value => power (value - mean returns)).sum := by
  rcases eq_or_ne returns [] with rfl | hsome
  · simp [affine]
  rw [mean_affine hsome, affine, List.map_map, ← List.sum_map_mul_left]
  refine congrArg List.sum (List.map_congr_left fun value _ => ?_)
  rw [Function.comp_apply, add_sub_add_right_eq_sub, ← mul_sub, hpower]

theorem centralMoment_affine {power : Rat → Rat} {factor : Rat}
    (hpower : ∀ distance, power (scale * distance) = factor * power distance) (shift : Rat)
    (returns : List Rat) :
    centralMoment power (affine scale shift returns) = factor * centralMoment power returns := by
  rw [centralMoment_rat, centralMoment_rat, sum_powers_affine power hpower, length_affine, mul_div_assoc]

theorem secondMoment_affine (scale shift : Rat) (returns : List Rat) :
    secondMoment (affine scale shift returns) = scale ^ 2 * secondMoment returns :=
  centralMoment_affine (fun distance => by ring) shift returns

theorem thirdMoment_affine (scale shift : Rat) (returns : List Rat) :
    thirdMoment (affine scale shift returns) = scale ^ 3 * thirdMoment returns :=
  centralMoment_affine (fun distance => by ring) shift returns

theorem fourthMoment_affine (scale shift : Rat) (returns : List Rat) :
    fourthMoment (affine scale shift returns) = scale ^ 4 * fourthMoment returns :=
  centralMoment_affine (fun distance => by ring) shift returns

theorem secondMoment_eq_zero_iff_mean (hsome : returns ≠ []) :
    secondMoment returns = 0 ↔ ∀ value ∈ returns, value = mean returns := by
  have hlength : (returns.length : Rat) ≠ 0 := (length_pos hsome).ne'
  rw [secondMoment, centralMoment_rat, div_eq_zero_iff, or_iff_left hlength]
  constructor
  · intro hsum value hvalue
    have hsquares : ∀ square ∈ returns.map (fun value => (value - mean returns) * (value - mean returns)),
        0 ≤ square :=
      List.forall_mem_map.mpr fun value _ => mul_self_nonneg (value - mean returns)
    have hzero : (value - mean returns) * (value - mean returns) = 0 :=
      List.all_zero_of_le_zero_le_of_sum_eq_zero hsquares hsum (List.mem_map_of_mem hvalue)
    exact sub_eq_zero.mp (mul_self_eq_zero.mp hzero)
  · intro hall
    refine List.sum_eq_zero (List.forall_mem_map.mpr fun value hvalue => ?_)
    rw [hall value hvalue, sub_self, mul_zero]

/-- Returns are at no distance from their mean when they are all alike. -/
theorem secondMoment_eq_zero_iff (returns : List Rat) :
    secondMoment returns = 0 ↔ ∀ first ∈ returns, ∀ second ∈ returns, first = second := by
  rcases eq_or_ne returns [] with rfl | hsome
  · simp [secondMoment, centralMoment_rat]
  rw [secondMoment_eq_zero_iff_mean hsome]
  constructor
  · intro hall first hfirst second hsecond
    rw [hall first hfirst, hall second hsecond]
  · intro hall value hvalue
    exact le_antisymm (le_mean hsome fun other hother => (hall value hvalue other hother).le)
      (mean_le hsome fun other hother => (hall other hother value hvalue).le)

/-! ### When a figure counts as zero -/

/-- The two lists have as many returns, and the returns of one are all alike when those of the other
are. -/
structure SameGuards (first second : List Rat) : Prop where
  length_lt_iff : ∀ least, first.length < least ↔ second.length < least
  secondMoment_iff : secondMoment first = 0 ↔ secondMoment second = 0

theorem sameGuards_affine (hscale : scale ≠ 0) (shift : Rat) (returns : List Rat) :
    SameGuards (affine scale shift returns) returns where
  length_lt_iff least := by rw [length_affine]
  secondMoment_iff := by
    rw [secondMoment_affine, mul_eq_zero, or_iff_right (pow_ne_zero 2 hscale)]

/-! ### Skewness, kurtosis and volatility -/

theorem kurtosis_affine (hscale : scale ≠ 0) (shift : Rat) (returns : List Rat) :
    kurtosis (affine scale shift returns) = kurtosis returns := by
  have hguards := sameGuards_affine hscale shift returns
  have hexcess : fourthMoment (affine scale shift returns) /
        (secondMoment (affine scale shift returns) * secondMoment (affine scale shift returns)) =
      fourthMoment returns / (secondMoment returns * secondMoment returns) := by
    have hsquare : scale ^ 2 * secondMoment returns * (scale ^ 2 * secondMoment returns) =
        scale ^ 4 * (secondMoment returns * secondMoment returns) := by ring
    rw [fourthMoment_affine, secondMoment_affine, hsquare, mul_div_mul_left _ _ (pow_ne_zero 4 hscale)]
  simp only [kurtosis, beq_iff_eq, hguards.secondMoment_iff, hexcess, count, length_affine]

section Rooted

variable [Roots Rat]

/-- In a unit that keeps the second moment, only the sign of the third changes. -/
theorem skewness_affine (hscale : scale ^ 2 = 1) (shift : Rat) (returns : List Rat) :
    skewness (affine scale shift returns) = scale * skewness returns := by
  have hsecond : secondMoment (affine scale shift returns) = secondMoment returns := by
    rw [secondMoment_affine, hscale, one_mul]
  have hthird : thirdMoment (affine scale shift returns) = scale * thirdMoment returns := by
    rw [thirdMoment_affine, pow_succ, hscale, one_mul]
  simp only [skewness, length_affine, hsecond, hthird, count, mul_div_assoc, mul_ite, mul_zero]
  simp only [mul_left_comm]

theorem deviation_affine (hscale : scale ^ 2 = 1) (shift : Rat) (returns : List Rat) :
    deviation (affine scale shift returns) = deviation returns := by
  have hsquares : ∀ distance : Rat,
      scale * distance * (scale * distance) = scale ^ 2 * (distance * distance) := fun distance => by ring
  have hsum := sum_powers_affine (fun distance => distance * distance) hsquares shift returns
  simp only [deviation, length_affine, Scalar.sum_rat, hsum, hscale, one_mul]

/-- **Shape does not see where the returns lie.** Moving the returns changes neither skewness nor kurtosis
nor volatility, another unit does not change the kurtosis, and turning all signs turns that of the skewness
and keeps the kurtosis. The figures count as zero on both sides or on none, and the second moment is zero
exactly when all returns are alike. -/
theorem shape_of_affine (returns : List Rat) (shift : Rat) {factor : Rat} (hfactor : 0 < factor) :
    (skewness (returns.map (· + shift)) = skewness returns ∧
      kurtosis (returns.map (· + shift)) = kurtosis returns ∧
      volatility (returns.map (· + shift)) = volatility returns ∧
      SameGuards (returns.map (· + shift)) returns) ∧
    (kurtosis (returns.map (factor * ·)) = kurtosis returns ∧
      SameGuards (returns.map (factor * ·)) returns) ∧
    (skewness (returns.map (-·)) = -skewness returns ∧
      kurtosis (returns.map (-·)) = kurtosis returns ∧
      SameGuards (returns.map (-·)) returns) ∧
    (secondMoment returns = 0 ↔ ∀ first ∈ returns, ∀ second ∈ returns, first = second) := by
  rw [map_add_eq_affine, map_mul_eq_affine, map_neg_eq_affine]
  have hturned : (-1 : Rat) ≠ 0 := neg_ne_zero.mpr one_ne_zero
  refine ⟨⟨?_, kurtosis_affine one_ne_zero _ _, ?_, sameGuards_affine one_ne_zero _ _⟩,
    ⟨kurtosis_affine hfactor.ne' _ _, sameGuards_affine hfactor.ne' _ _⟩,
    ⟨?_, kurtosis_affine hturned _ _, sameGuards_affine hturned _ _⟩, secondMoment_eq_zero_iff returns⟩
  · rw [skewness_affine (one_pow 2), one_mul]
  · rw [volatility, deviation_affine (one_pow 2), volatility]
  · rw [skewness_affine (by norm_num), neg_one_mul]

end Rooted

namespace Sample

/-- Square roots of squares, and the powers of squares by whole numbers of halves. -/
@[reducible]
def roots : Roots Rat where
  sqrt := Rat.sqrt
  power base exponent := Rat.sqrt base ^ (2 * exponent).num

def outlier : List Rat := [0, 0, 0, 0, 5]

end Sample

theorem shape_of_affine_sample :
    (0 : Rat) < 2 ∧ secondMoment Sample.outlier ≠ 0 ∧ kurtosis Sample.outlier = 5 ∧
      kurtosis (Sample.outlier.map (· + 7)) = 5 ∧ kurtosis (Sample.outlier.map (2 * ·)) = 5 ∧
      @skewness Rat _ Sample.roots (Sample.outlier.map (-·)) =
        -@skewness Rat _ Sample.roots Sample.outlier := by
  have hfactor : (0 : Rat) < 2 := two_pos
  have hkurtosis : kurtosis Sample.outlier = 5 := by decide +kernel
  obtain ⟨hmoved, hscaled, hturned, halike⟩ := @shape_of_affine Sample.roots Sample.outlier 7 2 hfactor
  have hsecond : secondMoment Sample.outlier ≠ 0 := fun hzero =>
    absurd (halike.mp hzero 0 (by simp [Sample.outlier]) 5 (by simp [Sample.outlier])) (by norm_num)
  exact ⟨hfactor, hsecond, hkurtosis, hmoved.2.1.trans hkurtosis, hscaled.1.trans hkurtosis, hturned.1⟩

end Backtest.Returns
