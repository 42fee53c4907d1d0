import Mathlib.Data.List.GetD
import Mathlib.Data.List.Sort
import Backtest.Performance.Tail
import Backtest.Proofs.Performance.Mean

/-!
# Laws of the value at risk

The value at risk is read off the sorted returns at a place between two of them. The place falls when
more confidence is asked for, and a value between the members of a sorted list grows with its place. The
conditional value is the mean of the returns that are no better, and there are some, since the least one
is never above the value at risk. With more confidence this tail loses its best returns.
-/

namespace Backtest.Returns

/-! ### Places between the members of a list -/

/-- The value at a place of a list, between two members in proportion. -/
def interpolated (ordered : List Rat) (place : Rat) : Rat :=
  let low := ordered.getD ⌊place⌋₊ 0
  let high := ordered.getD ⌈place⌉₊ 0
  low + (place - ⌊place⌋₊) * (high - low)

section Interpolation

variable {ordered : List Rat} {place first second : Rat}

theorem getD_le_getD (hordered : ordered.SortedLE) {i j : Nat} (hle : i ≤ j)
    (hlt : j < ordered.length) : ordered.getD i 0 ≤ ordered.getD j 0 := by
  rw [List.getD_eq_getElem _ _ (hle.trans_lt hlt), List.getD_eq_getElem _ _ hlt]
  exact hordered.getElem_le_getElem_of_le hle

theorem getD_floor_le_interpolated (hordered : ordered.SortedLE) (hnonneg : 0 ≤ place)
    (hlt : ⌈place⌉₊ < ordered.length) : ordered.getD ⌊place⌋₊ 0 ≤ interpolated ordered place := by
  have hstep := getD_le_getD hordered (Nat.floor_le_ceil place) hlt
  exact le_add_of_nonneg_right
    (mul_nonneg (sub_nonneg.mpr (Nat.floor_le hnonneg)) (sub_nonneg.mpr hstep))

theorem interpolated_le_getD_ceil (hordered : ordered.SortedLE)
    (hlt : ⌈place⌉₊ < ordered.length) : interpolated ordered place ≤ ordered.getD ⌈place⌉₊ 0 := by
  have hstep := getD_le_getD hordered (Nat.floor_le_ceil place) hlt
  have hpart : place - ⌊place⌋₊ ≤ 1 := by linarith [Nat.lt_floor_add_one place]
  have hscaled := mul_le_of_le_one_left (sub_nonneg.mpr hstep) hpart
  unfold interpolated
  linarith

/-- Between the same two members the value moves in proportion; otherwise a member lies between. -/
theorem interpolated_mono (hordered : ordered.SortedLE) (hnonneg : 0 ≤ first)
    (hle : first ≤ second) (hlt : ⌈second⌉₊ < ordered.length) :
    interpolated ordered first ≤ interpolated ordered second := by
  have hceil : ⌈first⌉₊ ≤ ⌈second⌉₊ := Nat.ceil_mono hle
  have hfloor : ⌊first⌋₊ ≤ ⌊second⌋₊ := Nat.floor_mono hle
  rcases le_or_gt ⌈first⌉₊ ⌊second⌋₊ with hapart | htogether
  · calc interpolated ordered first
        ≤ ordered.getD ⌈first⌉₊ 0 := interpolated_le_getD_ceil hordered (hceil.trans_lt hlt)
      _ ≤ ordered.getD ⌊second⌋₊ 0 :=
          getD_le_getD hordered hapart ((Nat.floor_le_ceil second).trans_lt hlt)
      _ ≤ interpolated ordered second :=
          getD_floor_le_interpolated hordered (hnonneg.trans hle) hlt
  · have hfirst := Nat.ceil_le_floor_add_one first
    have hsecond := Nat.ceil_le_floor_add_one second
    have hlow : ⌊first⌋₊ = ⌊second⌋₊ := by omega
    have hhigh : ⌈first⌉₊ = ⌈second⌉₊ := by omega
    have hstep := getD_le_getD hordered (Nat.floor_le_ceil second) hlt
    rw [interpolated, interpolated, hlow, hhigh]
    have hpart : first - ⌊second⌋₊ ≤ second - ⌊second⌋₊ := sub_le_sub_right hle _
    exact add_le_add_right (mul_le_mul_of_nonneg_right hpart (sub_nonneg.mpr hstep)) _

end Interpolation

/-! ### Quantiles -/

section Quantiles

variable {returns others : List Rat} {confidence low high : Rat}

theorem sorted_perm (returns : List Rat) : (sorted returns).Perm returns :=
  List.mergeSort_perm returns Scalar.precedes

theorem sorted_sortedLE (returns : List Rat) : (sorted returns).SortedLE :=
  List.sortedLE_mergeSort

theorem length_sorted_pos (hsome : returns ≠ []) : 0 < (sorted returns).length := by
  rw [(sorted_perm returns).length_eq]
  exact List.length_pos_of_ne_nil hsome

theorem sorted_eq_of_perm (hperm : others.Perm returns) : sorted others = sorted returns := by
  have hsorted : (sorted others).Perm (sorted returns) :=
    (sorted_perm others).trans (hperm.trans (sorted_perm returns).symm)
  exact hsorted.eq_of_sortedLE (sorted_sortedLE others) (sorted_sortedLE returns)

theorem getD_sorted_mem {place : Nat} (hlt : place < (sorted returns).length) :
    (sorted returns).getD place 0 ∈ returns := by
  rw [List.getD_eq_getElem _ _ hlt, ← (sorted_perm returns).mem_iff]
  exact List.getElem_mem hlt

theorem isLeast_sorted (hsome : returns ≠ []) :
    IsLeast {value | value ∈ returns} ((sorted returns).getD 0 0) := by
  refine ⟨getD_sorted_mem (length_sorted_pos hsome), fun value hmem => ?_⟩
  obtain ⟨place, hplace, rfl⟩ := List.getElem_of_mem ((sorted_perm returns).mem_iff.mpr hmem)
  rw [← List.getD_eq_getElem _ 0 hplace]
  exact getD_le_getD (sorted_sortedLE returns) (Nat.zero_le place) hplace

theorem isGreatest_sorted (hsome : returns ≠ []) :
    IsGreatest {value | value ∈ returns}
      ((sorted returns).getD ((sorted returns).length - 1) 0) := by
  have hlast : (sorted returns).length - 1 < (sorted returns).length :=
    Nat.sub_lt (length_sorted_pos hsome) Nat.one_pos
  refine ⟨getD_sorted_mem hlast, fun value hmem => ?_⟩
  obtain ⟨place, hplace, rfl⟩ := List.getElem_of_mem ((sorted_perm returns).mem_iff.mpr hmem)
  rw [← List.getD_eq_getElem _ 0 hplace]
  exact getD_le_getD (sorted_sortedLE returns) (Nat.le_sub_one_of_lt hplace) hlast

theorem quantilePlace_rat (returns : List Rat) (confidence : Rat) :
    quantilePlace returns confidence =
      ((returns.length - 1 : Nat) : Rat) * max 0 (min 1 (1 - confidence)) := by
  rw [quantilePlace, Scalar.clamp_rat zero_le_one]

theorem quantilePlace_nonneg (returns : List Rat) (confidence : Rat) :
    0 ≤ quantilePlace returns confidence := by
  rw [quantilePlace_rat]
  exact mul_nonneg (Nat.cast_nonneg _) (le_max_left _ _)

theorem ceil_quantilePlace_lt (hsome : returns ≠ []) (confidence : Rat) :
    ⌈quantilePlace returns confidence⌉₊ < (sorted returns).length := by
  have hplace : quantilePlace returns confidence ≤ (returns.length - 1 : Nat) := by
    rw [quantilePlace_rat]
    exact mul_le_of_le_one_right (Nat.cast_nonneg _) (max_le zero_le_one (min_le_left _ _))
  rw [(sorted_perm returns).length_eq]
  exact (Nat.ceil_le.mpr hplace).trans_lt (Nat.sub_lt (List.length_pos_of_ne_nil hsome) Nat.one_pos)

theorem floor_quantilePlace_lt (hsome : returns ≠ []) (confidence : Rat) :
    ⌊quantilePlace returns confidence⌋₊ < (sorted returns).length :=
  (Nat.floor_le_ceil _).trans_lt (ceil_quantilePlace_lt hsome confidence)

theorem lowerPlace_rat (returns : List Rat) (confidence : Rat) :
    lowerPlace returns confidence = ⌊quantilePlace returns confidence⌋₊ :=
  Scalar.floorNat_rat _

theorem upperPlace_rat (returns : List Rat) (confidence : Rat) :
    upperPlace returns confidence = ⌈quantilePlace returns confidence⌉₊ :=
  Scalar.ceilNat_rat _

theorem lowerPlace_lt (hsome : returns ≠ []) (confidence : Rat) :
    lowerPlace returns confidence < (sorted returns).length := by
  rw [lowerPlace_rat]
  exact floor_quantilePlace_lt hsome confidence

theorem upperPlace_lt (hsome : returns ≠ []) (confidence : Rat) :
    upperPlace returns confidence < (sorted returns).length := by
  rw [upperPlace_rat]
  exact ceil_quantilePlace_lt hsome confidence

theorem quantilePlace_perm (hperm : others.Perm returns) (confidence : Rat) :
    quantilePlace others confidence = quantilePlace returns confidence := by
  rw [quantilePlace, quantilePlace, hperm.length_eq]

theorem quantilePlace_antitone (returns : List Rat) (hle : low ≤ high) :
    quantilePlace returns high ≤ quantilePlace returns low := by
  rw [quantilePlace_rat, quantilePlace_rat]
  refine mul_le_mul_of_nonneg_left ?_ (Nat.cast_nonneg _)
  exact max_le_max_left 0 (min_le_min_left 1 (sub_le_sub_left hle 1))

/-! ### The value at risk -/

theorem valueAtRisk_rat (hsome : returns ≠ []) (confidence : Rat) :
    valueAtRisk returns confidence =
      interpolated (sorted returns) (quantilePlace returns confidence) := by
  rw [valueAtRisk, if_neg (by rwa [List.isEmpty_iff])]
  simp only [lowerPlace_rat, upperPlace_rat]
  rfl

/-- The value at risk stands between the returns at its two places, and both are there. -/
theorem exists_valueAtRisk_eq (hsome : returns ≠ []) (confidence : Rat) :
    ∃ low high, (sorted returns)[lowerPlace returns confidence]? = some low ∧
      (sorted returns)[upperPlace returns confidence]? = some high ∧
      valueAtRisk returns confidence =
        low + (quantilePlace returns confidence - lowerPlace returns confidence) * (high - low) := by
  have hlower := lowerPlace_lt hsome confidence
  have hupper := upperPlace_lt hsome confidence
  refine ⟨_, _, List.getElem?_eq_getElem hlower, List.getElem?_eq_getElem hupper, ?_⟩
  rw [valueAtRisk_rat hsome, interpolated, ← lowerPlace_rat, ← upperPlace_rat,
    List.getD_eq_getElem _ _ hlower, List.getD_eq_getElem _ _ hupper]

theorem valueAtRisk_perm (hperm : others.Perm returns) (confidence : Rat) :
    valueAtRisk others confidence = valueAtRisk returns confidence := by
  have hempty : others.isEmpty = returns.isEmpty := by
    rw [Bool.eq_iff_iff, List.isEmpty_iff_length_eq_zero, List.isEmpty_iff_length_eq_zero,
      hperm.length_eq]
  simp only [valueAtRisk, lowerPlace, upperPlace, hempty, sorted_eq_of_perm hperm,
    quantilePlace_perm hperm]

theorem valueAtRisk_antitone (hsome : returns ≠ []) (hle : low ≤ high) :
    valueAtRisk returns high ≤ valueAtRisk returns low := by
  rw [valueAtRisk_rat hsome, valueAtRisk_rat hsome]
  exact interpolated_mono (sorted_sortedLE returns) (quantilePlace_nonneg returns high)
    (quantilePlace_antitone returns hle) (ceil_quantilePlace_lt hsome low)

theorem least_le_valueAtRisk (hsome : returns ≠ []) (confidence : Rat) :
    (sorted returns).getD 0 0 ≤ valueAtRisk returns confidence := by
  rw [valueAtRisk_rat hsome]
  calc (sorted returns).getD 0 0
      ≤ (sorted returns).getD ⌊quantilePlace returns confidence⌋₊ 0 :=
        getD_le_getD (sorted_sortedLE returns) (Nat.zero_le _)
          (floor_quantilePlace_lt hsome confidence)
    _ ≤ interpolated (sorted returns) (quantilePlace returns confidence) :=
        getD_floor_le_interpolated (sorted_sortedLE returns) (quantilePlace_nonneg returns confidence)
          (ceil_quantilePlace_lt hsome confidence)

theorem valueAtRisk_le_greatest (hsome : returns ≠ []) (confidence : Rat) :
    valueAtRisk returns confidence ≤ (sorted returns).getD ((sorted returns).length - 1) 0 := by
  have hceil := ceil_quantilePlace_lt hsome confidence
  rw [valueAtRisk_rat hsome]
  calc interpolated (sorted returns) (quantilePlace returns confidence)
      ≤ (sorted returns).getD ⌈quantilePlace returns confidence⌉₊ 0 :=
        interpolated_le_getD_ceil (sorted_sortedLE returns) hceil
    _ ≤ (sorted returns).getD ((sorted returns).length - 1) 0 :=
        getD_le_getD (sorted_sortedLE returns) (Nat.le_sub_one_of_lt hceil)
          (Nat.sub_lt (length_sorted_pos hsome) Nat.one_pos)

/-! ### The tail -/

/-- The returns that are no better than the value at risk. -/
def tail (returns : List Rat) (confidence : Rat) : List Rat :=
  returns.filter (· ≤ valueAtRisk returns confidence)

/-- The least return is in every tail. -/
theorem tail_ne_nil (hsome : returns ≠ []) (confidence : Rat) : tail returns confidence ≠ [] := by
  have hleast := (isLeast_sorted hsome).1
  have hmem : (sorted returns).getD 0 0 ∈ tail returns confidence :=
    List.mem_filter.mpr ⟨hleast, decide_eq_true (least_le_valueAtRisk hsome confidence)⟩
  exact List.ne_nil_of_mem hmem

theorem conditionalValueAtRisk_rat (hsome : returns ≠ []) (confidence : Rat) :
    conditionalValueAtRisk returns confidence = mean (tail returns confidence) := by
  have hnonempty : ¬(tail returns confidence).isEmpty = true := by
    rw [List.isEmpty_iff]
    exact tail_ne_nil hsome confidence
  exact if_neg hnonempty

theorem conditionalValueAtRisk_perm (hperm : others.Perm returns) (confidence : Rat) :
    conditionalValueAtRisk others confidence = conditionalValueAtRisk returns confidence := by
  rcases eq_or_ne returns [] with rfl | hsome
  · rw [hperm.eq_nil]
  · have hothers : others ≠ [] := by
      rintro rfl
      exact hsome hperm.symm.eq_nil
    rw [conditionalValueAtRisk_rat hothers, conditionalValueAtRisk_rat hsome, tail,
      valueAtRisk_perm hperm, tail]
    exact mean_perm (hperm.filter _)

theorem least_le_conditionalValueAtRisk (hsome : returns ≠ []) (confidence : Rat) :
    (sorted returns).getD 0 0 ≤ conditionalValueAtRisk returns confidence := by
  rw [conditionalValueAtRisk_rat hsome]
  refine le_mean (tail_ne_nil hsome confidence) fun value hmem => ?_
  exact (isLeast_sorted hsome).2 (List.mem_of_mem_filter hmem)

theorem conditionalValueAtRisk_le (hsome : returns ≠ []) (confidence : Rat) :
    conditionalValueAtRisk returns confidence ≤ valueAtRisk returns confidence := by
  rw [conditionalValueAtRisk_rat hsome]
  refine mean_le (tail_ne_nil hsome confidence) fun value hmem => ?_
  exact of_decide_eq_true (List.mem_filter.mp hmem).2

theorem tail_eq_filter_tail (hsome : returns ≠ []) (hle : low ≤ high) :
    tail returns high = (tail returns low).filter (· ≤ valueAtRisk returns high) := by
  rw [tail, tail, List.filter_filter]
  refine List.filter_congr fun value _ => ?_
  rw [Bool.eq_iff_iff, Bool.and_eq_true, decide_eq_true_eq, decide_eq_true_eq]
  exact ⟨fun hlimit => ⟨hlimit, hlimit.trans (valueAtRisk_antitone hsome hle)⟩, And.left⟩

theorem conditionalValueAtRisk_antitone (hsome : returns ≠ []) (hle : low ≤ high) :
    conditionalValueAtRisk returns high ≤ conditionalValueAtRisk returns low := by
  have htail := tail_ne_nil hsome high
  rw [conditionalValueAtRisk_rat hsome, conditionalValueAtRisk_rat hsome]
  rw [tail_eq_filter_tail hsome hle] at htail ⊢
  exact mean_filter_le htail

/-- **Laws of the value at risk.** Both places that it looks up are places of the sorted returns, so it is
read off two returns that are there, and the conditional value is the mean of a tail that is never empty.
The least return, the conditional value, the value at risk and the greatest return come in this order.
Neither value depends on the order of the returns, and more confidence raises neither. -/
theorem valueAtRisk_laws (hsome : returns ≠ []) :
    (∀ confidence,
      lowerPlace returns confidence < (sorted returns).length ∧
      upperPlace returns confidence < (sorted returns).length ∧
      (∃ low high, (sorted returns)[lowerPlace returns confidence]? = some low ∧
        (sorted returns)[upperPlace returns confidence]? = some high ∧
        valueAtRisk returns confidence =
          low + (quantilePlace returns confidence - lowerPlace returns confidence) * (high - low)) ∧
      (returns.filter (· ≤ valueAtRisk returns confidence)) ≠ [] ∧
      conditionalValueAtRisk returns confidence =
        mean (returns.filter (· ≤ valueAtRisk returns confidence)) ∧
      ∃ least greatest, IsLeast {value | value ∈ returns} least ∧
        IsGreatest {value | value ∈ returns} greatest ∧
        least ≤ conditionalValueAtRisk returns confidence ∧
        conditionalValueAtRisk returns confidence ≤ valueAtRisk returns confidence ∧
        valueAtRisk returns confidence ≤ greatest) ∧
    (∀ others : List Rat, others.Perm returns → ∀ confidence,
      valueAtRisk others confidence = valueAtRisk returns confidence ∧
        conditionalValueAtRisk others confidence = conditionalValueAtRisk returns confidence) ∧
    ∀ low high : Rat, low ≤ high →
      valueAtRisk returns high ≤ valueAtRisk returns low ∧
        conditionalValueAtRisk returns high ≤ conditionalValueAtRisk returns low := by
  refine ⟨fun confidence => ?_, fun others hperm confidence => ?_, fun low high hle => ?_⟩
  · exact ⟨lowerPlace_lt hsome confidence, upperPlace_lt hsome confidence,
      exists_valueAtRisk_eq hsome confidence, tail_ne_nil hsome confidence,
      conditionalValueAtRisk_rat hsome confidence, _, _, isLeast_sorted hsome, isGreatest_sorted hsome,
      least_le_conditionalValueAtRisk hsome confidence, conditionalValueAtRisk_le hsome confidence,
      valueAtRisk_le_greatest hsome confidence⟩
  · exact ⟨valueAtRisk_perm hperm confidence, conditionalValueAtRisk_perm hperm confidence⟩
  · exact ⟨valueAtRisk_antitone hsome hle, conditionalValueAtRisk_antitone hsome hle⟩

theorem valueAtRisk_laws_sample :
    ∃ returns : List Rat, returns ≠ [] ∧ [1 / 100, -2 / 100, 3 / 100].Perm returns ∧
      valueAtRisk [1 / 100, -2 / 100, 3 / 100] (9 / 10) = valueAtRisk returns (9 / 10) ∧
      conditionalValueAtRisk returns (9 / 10) ≤ conditionalValueAtRisk returns (1 / 2) := by
  have hsome : [3 / 100, 1 / 100, (-2 / 100 : Rat)] ≠ [] := List.cons_ne_nil _ _
  have hperm : [1 / 100, -2 / 100, (3 / 100 : Rat)].Perm [3 / 100, 1 / 100, -2 / 100] :=
    List.perm_append_singleton (3 / 100) [1 / 100, -2 / 100]
  obtain ⟨_, hsame, hless⟩ := valueAtRisk_laws hsome
  exact ⟨_, hsome, hperm, (hsame _ hperm _).1, (hless (1 / 2) (9 / 10) (by norm_num)).2⟩

end Quantiles

end Backtest.Returns
