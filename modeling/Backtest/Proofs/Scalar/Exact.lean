import Mathlib.Algebra.BigOperators.Group.List.Basic
import Mathlib.Algebra.Order.Field.Rat
import Mathlib.Algebra.Order.Group.Unbundled.Abs
import Mathlib.Data.Rat.Floor
import Backtest.Scalar.Rational

/-!
# Operations of exact scalars

On rational numbers the operations of the scalars are the usual ones. The accounting laws are stated
with these.
-/

namespace Backtest.Scalar

@[simp]
theorem isFinite_rat (value : Rat) : isFinite value = true := rfl

theorem isBelow_rat {low high value : Rat} :
    isBelow low high value = true ↔ low ≤ value ∧ value < high := by
  simp [isBelow]

theorem sum_rat (terms : List Rat) : sum terms = terms.sum := by
  rw [sum, List.sum_eq_foldl]
  simp

theorem magnitude_rat (value : Rat) : magnitude value = |value| := by
  by_cases hnegative : value < 0
  · rw [abs_of_neg hnegative]
    exact if_pos hnegative
  · rw [abs_of_nonneg (not_lt.mp hnegative)]
    exact if_neg hnegative

theorem floorNat_rat (value : Rat) : floorNat value = ⌊value⌋₊ := rfl

theorem ceilNat_rat (value : Rat) : ceilNat value = ⌈value⌉₊ := by
  have hceil : value.ceil = ⌈value⌉ := by
    rw [Rat.ceil_eq_neg_floor_neg, ← neg_neg ⌈value⌉, ← Int.floor_neg]
    rfl
  rw [← Int.ceil_toNat, ← hceil]
  rfl

theorem clamp_rat {low high : Rat} (hle : low ≤ high) (value : Rat) :
    clamp low high value = max low (min high value) := by
  unfold clamp
  split_ifs with hlow hhigh
  · rw [min_eq_right (hlow.le.trans hle), max_eq_left hlow.le]
  · rw [min_eq_left hhigh.le, max_eq_right hle]
  · rw [min_eq_right (not_lt.mp hhigh), max_eq_right (not_lt.mp hlow)]

end Backtest.Scalar
