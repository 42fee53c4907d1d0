import Mathlib.Algebra.Order.BigOperators.Group.List
import Mathlib.Algebra.Order.Field.Rat
import Backtest.Performance.Returns
import Backtest.Proofs.Scalar.Exact

/-!
# Means

The mean of some returns does not depend on their order and lies between all bounds of theirs. To leave
out the returns above a bound does not raise it.
-/

namespace Backtest.Returns

variable {returns others : List Rat} {bound : Rat}

theorem mean_rat (returns : List Rat) : mean returns = returns.sum / returns.length := by
  cases returns with
  | nil => simp [mean]
  | cons first rest =>
      rw [mean, if_neg (by simp), Scalar.sum_rat]
      rfl

theorem length_pos (hsome : returns ≠ []) : (0 : Rat) < returns.length :=
  Nat.cast_pos.mpr (List.length_pos_of_ne_nil hsome)

theorem mean_mul_length (hsome : returns ≠ []) : mean returns * returns.length = returns.sum := by
  rw [mean_rat, div_mul_cancel₀ _ (length_pos hsome).ne']

theorem mean_perm (hperm : others.Perm returns) : mean others = mean returns := by
  rw [mean_rat, mean_rat, hperm.sum_eq, hperm.length_eq]

theorem le_mean (hsome : returns ≠ []) (hbound : ∀ value ∈ returns, bound ≤ value) :
    bound ≤ mean returns := by
  rw [mean_rat, le_div_iff₀ (length_pos hsome), mul_comm, ← nsmul_eq_mul]
  exact List.card_nsmul_le_sum returns bound hbound

theorem mean_le (hsome : returns ≠ []) (hbound : ∀ value ∈ returns, value ≤ bound) :
    mean returns ≤ bound := by
  rw [mean_rat, div_le_iff₀ (length_pos hsome), mul_comm, ← nsmul_eq_mul]
  exact List.sum_le_card_nsmul returns bound hbound

/-- Returns above a bound raise the mean of those that are not above it. -/
theorem mean_filter_le (hsome : (returns.filter (· ≤ bound)) ≠ []) :
    mean (returns.filter (· ≤ bound)) ≤ mean returns := by
  set below := returns.filter (· ≤ bound) with hbelow
  set above := returns.filter (fun value => !decide (value ≤ bound)) with habove
  have hsplit : (below ++ above).Perm returns := List.filter_append_perm (· ≤ bound) returns
  have hreturns : returns ≠ [] := by
    rintro rfl
    exact hsome rfl
  have hmean : mean below ≤ bound :=
    mean_le hsome fun value hmem => by simpa using (List.mem_filter.mp hmem).2
  have hrest : above.length * mean below ≤ above.sum := by
    rw [← nsmul_eq_mul]
    refine List.card_nsmul_le_sum above _ fun value hmem => hmean.trans ?_
    have hnot : ¬value ≤ bound := by simpa using (List.mem_filter.mp hmem).2
    exact (not_le.mp hnot).le
  rw [mean_rat returns, le_div_iff₀ (length_pos hreturns), ← hsplit.length_eq, ← hsplit.sum_eq,
    List.length_append, List.sum_append, Nat.cast_add, mul_add, mean_mul_length hsome,
    mul_comm (mean below)]
  exact add_le_add_right hrest below.sum

end Backtest.Returns
