import Mathlib.Algebra.BigOperators.Ring.List
import Mathlib.Tactic.Linarith
import Backtest.Proofs.Aggregate.Monotonicity
import Backtest.Proofs.Strategy.Cutoff

/-!
# Weights as shares

The weights of the strategies count only in proportion to one another. Every strategy is given its share of
the total weight: no share is negative, all shares together make one, and so a score is a mean of positions
and stays between minus one and one. Nothing else about the weights can be told from a combination.
-/

namespace Backtest.Aggregate

variable {names : List String} {weights : Option (Weights Rat)}

/-- What a strategy weighs. A strategy that is not listed weighs nothing, and without weights all of them
weigh the same. -/
def weightOf (weights : Option (Weights Rat)) (name : String) : Rat :=
  weights.elim 1 fun table => (table.get? name).getD 0

def totalWeight (names : List String) (weights : Option (Weights Rat)) : Rat :=
  (names.map (weightOf weights)).sum

/-- Every strategy with its share of the total weight. -/
def shares (names : List String) (weights : Option (Weights Rat)) : List (String × Rat) :=
  names.map fun name => (name, weightOf weights name / totalWeight names weights)

/-- No strategy has a negative weight, and together they weigh something. -/
def Weighable (names : List String) (weights : Option (Weights Rat)) : Prop :=
  (∀ name ∈ names, 0 ≤ weightOf weights name) ∧ 0 < totalWeight names weights

/-! ### Shares -/

theorem givenWeights_eq (names : List String) (weights : Option (Weights Rat)) :
    givenWeights names weights = names.map fun name => (name, weightOf weights name) := by
  cases weights <;> rfl

theorem usable_iff_weighable : (Method.weighted weights).Usable names ↔ Weighable names weights := by
  rw [Method.Usable, givenWeights_eq, List.forall_mem_map, List.map_map, Scalar.sum_rat]
  simp [Weighable, totalWeight, Function.comp_def]

theorem normalizedWeights_rat_iff {given : List (String × Rat)} :
    normalizedWeights names weights = .ok given ↔
      Weighable names weights ∧ shares names weights = given := by
  rw [normalizedWeights_eq_ok_iff, ← usable_iff_weighable, Method.Usable, givenWeights_eq, List.map_map,
    List.map_map, Scalar.sum_rat]
  rfl

theorem exists_normalizedWeights_error_iff :
    (∃ fault, normalizedWeights names weights = .error fault) ↔ ¬Weighable names weights := by
  cases hnormalized : normalizedWeights names weights with
  | ok given =>
      exact iff_of_false (by simp) (not_not.mpr (normalizedWeights_rat_iff.mp hnormalized).1)
  | error fault =>
      refine iff_of_true ⟨fault, rfl⟩ fun hweighable => ?_
      rw [normalizedWeights_rat_iff.mpr ⟨hweighable, rfl⟩] at hnormalized
      cases hnormalized

theorem map_fst_shares (names : List String) (weights : Option (Weights Rat)) :
    (shares names weights).map Prod.fst = names := by
  rw [shares, List.map_map]
  exact List.map_id names

theorem shares_nonneg (hweighable : Weighable names weights) :
    ∀ share ∈ shares names weights, 0 ≤ share.2 :=
  List.forall_mem_map.mpr fun name hname => div_nonneg (hweighable.1 name hname) hweighable.2.le

theorem sum_shares (hweighable : Weighable names weights) :
    ((shares names weights).map Prod.snd).sum = 1 := by
  rw [shares, List.map_map]
  simp only [Function.comp_def, div_eq_mul_inv]
  rw [List.sum_map_mul_right, ← totalWeight, mul_inv_cancel₀ hweighable.2.ne']

/-! ### Scores -/

section Score

variable {given : List (String × Rat)}

@[simp]
theorem score_nil_left (row : List Position) : score ([] : List (String × Rat)) row = 0 := by
  simp [score, Scalar.sum_rat]

@[simp]
theorem score_nil_right (given : List (String × Rat)) : score given [] = 0 := by
  simp [score, Scalar.sum_rat]

theorem score_cons (share : String × Rat) (given : List (String × Rat)) (position : Position)
    (row : List Position) :
    score (share :: given) (position :: row) = share.2 * (position.sign : Rat) + score given row := by
  simp [score, Scalar.sum_rat]

theorem abs_sign_le (position : Position) : |(position.sign : Rat)| ≤ 1 := by
  cases position <;> simp [Position.sign]

/-- A mean of positions with these shares is off zero by no more than the shares add up to. -/
theorem abs_score_le (hshares : ∀ share ∈ given, 0 ≤ share.2) (row : List Position) :
    |score given row| ≤ (given.map Prod.snd).sum := by
  induction given generalizing row with
  | nil => simp
  | cons share given ih =>
      obtain ⟨hshare, hothers⟩ := List.forall_mem_cons.mp hshares
      cases row with
      | nil =>
          rw [score_nil_right, abs_zero]
          exact List.sum_nonneg (List.forall_mem_map.mpr hshares)
      | cons position row =>
          rw [score_cons, List.map_cons, List.sum_cons]
          have hfirst : |share.2 * (position.sign : Rat)| ≤ share.2 := by
            rw [abs_mul, abs_of_nonneg hshare]
            exact mul_le_of_le_one_right hshare (abs_sign_le position)
          exact (abs_add_le _ _).trans (add_le_add hfirst (ih hothers row))

end Score

/-! ### Weights that give the same shares -/

section Same

variable {table others : Weights Rat} {factor : Rat}

theorem normalizedWeights_congr
    (hagree : ∀ name ∈ names, weightOf (some others) name = weightOf (some table) name) :
    normalizedWeights names (some others) = normalizedWeights names (some table) := by
  have hgiven : givenWeights names (some others) = givenWeights names (some table) := by
    rw [givenWeights_eq, givenWeights_eq]
    exact List.map_congr_left fun name hname => by rw [hagree name hname]
  simp only [normalizedWeights, hgiven]

theorem weightOf_insert {name : String} (homitted : table.get? name = none) (other : String) :
    weightOf (some (table.insert name 0)) other = weightOf (some table) other := by
  simp only [weightOf, Option.elim_some, NameTable.get?_insert]
  by_cases hname : other = name
  · rw [if_pos hname, hname, homitted]
    rfl
  · rw [if_neg hname]

theorem weightOf_map (factor : Rat) (table : Weights Rat) (name : String) :
    weightOf (some (table.map (factor * ·))) name = factor * weightOf (some table) name := by
  simp only [weightOf, Option.elim_some, NameTable.get?_map]
  cases table.get? name with
  | none => exact (mul_zero factor).symm
  | some weight => rfl

theorem totalWeight_map (factor : Rat) (table : Weights Rat) :
    totalWeight names (some (table.map (factor * ·))) = factor * totalWeight names (some table) := by
  rw [totalWeight, funext (weightOf_map factor table), List.sum_map_mul_left, ← totalWeight]

theorem normalizedWeights_map_iff (hfactor : 0 < factor) {given : List (String × Rat)} :
    normalizedWeights names (some (table.map (factor * ·))) = .ok given ↔
      normalizedWeights names (some table) = .ok given := by
  have hweighable : Weighable names (some (table.map (factor * ·))) ↔ Weighable names (some table) := by
    simp only [Weighable, weightOf_map, totalWeight_map, mul_nonneg_iff_of_pos_left hfactor,
      mul_pos_iff_of_pos_left hfactor]
  have hshares : shares names (some (table.map (factor * ·))) = shares names (some table) := by
    simp only [shares, weightOf_map, totalWeight_map, mul_div_mul_left _ _ hfactor.ne']
  rw [normalizedWeights_rat_iff, normalizedWeights_rat_iff, hweighable, hshares]

end Same

/-! ### Combining -/

section Combining

variable {signals : List NamedSignal} {combination : Combination Rat}

theorem combine_weighted_congr {others : Option (Weights Rat)}
    (hsame : normalizedWeights (signals.map NamedSignal.name) others =
      normalizedWeights (signals.map NamedSignal.name) weights) :
    combine signals (.weighted others) = combine signals (.weighted weights) := by
  simp only [combine, combineRows, Method.name, hsame]

theorem combine_weighted_map_iff {table : Weights Rat} {factor : Rat} (hfactor : 0 < factor) :
    combine signals (.weighted (some (table.map (factor * ·)))) = .ok combination ↔
      combine signals (.weighted (some table)) = .ok combination := by
  rw [combine_eq_ok_iff, combine_eq_ok_iff]
  refine and_congr_right fun _ => bind_eq_ok_iff.trans (Iff.trans ?_ bind_eq_ok_iff.symm)
  exact exists_congr fun given => and_congr_left fun _ => normalizedWeights_map_iff hfactor

theorem combine_weighted_eq_error_iff (hsome : signals ≠ [])
    (hnames : (signals.map NamedSignal.name).Nodup) {fault : Error} :
    combine signals (.weighted weights) = .error fault ↔
      normalizedWeights (signals.map NamedSignal.name) weights = .error fault := by
  rw [combine_eq_of_nodup hsome hnames]
  refine bind_eq_error_iff.trans (or_iff_left ?_)
  rintro ⟨given, _, hresult⟩
  cases hresult

theorem of_combine_weighted (hcombine : combine signals (.weighted weights) = .ok combination) :
    Weighable (signals.map NamedSignal.name) weights ∧
      combination.weights = some (shares (signals.map NamedSignal.name) weights) ∧
      combination.scores =
        some ((rows signals).map (score (shares (signals.map NamedSignal.name) weights))) := by
  obtain ⟨_, hrows⟩ := combine_eq_ok_iff.mp hcombine
  obtain ⟨given, hgiven, hresult⟩ := bind_eq_ok_iff.mp hrows
  obtain ⟨hweighable, rfl⟩ := normalizedWeights_rat_iff.mp hgiven
  cases hresult
  exact ⟨hweighable, rfl, rfl⟩

end Combining

/-- How the weights of signals under some names count. -/
structure Proportional (signals : List NamedSignal) (names : List String) : Prop where
  normalized : ∀ (weights : Option (Weights Rat)) (combination : Combination Rat),
    combine signals (.weighted weights) = .ok combination →
    combination.weights = some (shares names weights) ∧ (shares names weights).map Prod.fst = names ∧
      (∀ share ∈ shares names weights, 0 ≤ share.2) ∧ ((shares names weights).map Prod.snd).sum = 1
  scores : ∀ (weights : Option (Weights Rat)) (combination : Combination Rat),
    combine signals (.weighted weights) = .ok combination →
    ∃ scores, combination.scores = some scores ∧ ∀ score ∈ scores.values, -1 ≤ score ∧ score ≤ 1
  scale : ∀ (table : Weights Rat) (factor : Rat), 0 < factor → ∀ combination : Combination Rat,
    combine signals (.weighted (some (table.map (factor * ·)))) = .ok combination ↔
      combine signals (.weighted (some table)) = .ok combination
  unrelated : ∀ table others : Weights Rat, (∀ name ∈ names, others.get? name = table.get? name) →
    combine signals (.weighted (some others)) = combine signals (.weighted (some table))
  omitted : ∀ (table : Weights Rat) (name : String), table.get? name = none →
    combine signals (.weighted (some (table.insert name 0))) = combine signals (.weighted (some table))
  checked : ∀ weights : Option (Weights Rat),
    (∃ fault, normalizedWeights names weights = .error fault) ↔
      (∃ name ∈ names, weightOf weights name < 0) ∨ totalWeight names weights ≤ 0
  refused : signals ≠ [] → names.Nodup → ∀ (weights : Option (Weights Rat)) (fault : Error),
    combine signals (.weighted weights) = .error fault ↔ normalizedWeights names weights = .error fault

/-- **Weights are only relative.** Combined signals come with their shares of the total weight, in their
order; the shares are not negative and make one together, so every score is between minus one and one. It
makes no difference to a combination when all weights are multiplied by a positive factor, when names
that are not among the signals are given other weights, or when a strategy without a weight is given none.
The weights are refused when one of the signals has a negative weight or all of them weigh nothing
together, and signals under distinct names are combined unless the weights are refused. -/
theorem combine_proportional (signals : List NamedSignal) :
    Proportional signals (signals.map NamedSignal.name) where
  normalized weights combination hcombine := by
    obtain ⟨hweighable, hshares, _⟩ := of_combine_weighted hcombine
    exact ⟨hshares, map_fst_shares _ _, shares_nonneg hweighable, sum_shares hweighable⟩
  scores weights combination hcombine := by
    obtain ⟨hweighable, _, hscores⟩ := of_combine_weighted hcombine
    refine ⟨_, hscores, ?_⟩
    rw [Series.values_map, List.forall_mem_map]
    intro row _
    have hbound := abs_score_le (shares_nonneg hweighable) row
    rw [sum_shares hweighable] at hbound
    exact abs_le.mp hbound
  scale table factor hfactor combination := combine_weighted_map_iff hfactor
  unrelated table others hagree := by
    refine combine_weighted_congr (normalizedWeights_congr fun name hname => ?_)
    rw [weightOf, weightOf, Option.elim_some, Option.elim_some, hagree name hname]
  omitted table name homitted :=
    combine_weighted_congr (normalizedWeights_congr fun other _ => weightOf_insert homitted other)
  checked weights := by
    rw [exists_normalizedWeights_error_iff, Weighable, not_and_or]
    simp
  refused hsome hnames weights fault := combine_weighted_eq_error_iff hsome hnames

theorem combine_proportional_sample :
    ∃ combination : Combination Rat,
      combine Sample.lower (.weighted (some Sample.shares)) = .ok combination ∧
        combination.weights = some [("trend", 3 / 4), ("revert", 1 / 4)] ∧
        combine Sample.lower (.weighted (some (Sample.shares.map (4 * ·)))) = .ok combination ∧
        combine Sample.lower (.weighted (some (Sample.shares.insert "other" (-1)))) = .ok combination ∧
        ∃ fault, combine Sample.lower
          (.weighted (some (Sample.shares.insert "trend" (-1)) : Option (Weights Rat))) = .error fault := by
  have hproportional := combine_proportional Sample.lower
  have hcombine : succeedsWith (fun _ => true)
      (combine Sample.lower (.weighted (some Sample.shares))) = true := by decide +kernel
  obtain ⟨combination, hcombination, _⟩ := exists_of_succeedsWith hcombine
  refine ⟨combination, hcombination, ?_, ?_, ?_, ?_⟩
  · rw [(hproportional.normalized _ _ hcombination).1]
    decide +kernel
  · exact (hproportional.scale _ 4 (by norm_num) _).mpr hcombination
  · rw [hproportional.unrelated Sample.shares _ (by decide +kernel), hcombination]
  · have hnegative : ∃ name ∈ Sample.lower.map NamedSignal.name,
        weightOf (some (Sample.shares.insert "trend" (-1))) name < 0 :=
      ⟨"trend", by decide, by decide +kernel⟩
    obtain ⟨fault, hfault⟩ := (hproportional.checked _).mpr (.inl hnegative)
    exact ⟨fault, (hproportional.refused (List.cons_ne_nil _ _) (by decide) _ _).mpr hfault⟩

end Backtest.Aggregate
