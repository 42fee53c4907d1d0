import Mathlib.Tactic.NormNum
import Backtest.Proofs.Scalar.Exact
import Backtest.Scalar.Binary64
import Backtest.Simulation

/-!
# What a run asks for

A run is refused for its terms first and then for its bars and its signal. These are the conditions
under which it is not refused, as properties that a proof can use. A run that is not refused always
gives the outcome of its days.
-/

namespace Backtest

/-- The terms that a run with exact scalars accepts. -/
structure Terms.Valid (terms : Terms Rat) : Prop where
  capital_ge : 100 ≤ terms.initialCapital
  fee_nonneg : 0 ≤ terms.feeRate
  fee_lt : terms.feeRate < 1 / 10

theorem Terms.passes_iff {α : Type} [Scalar α] {terms : Terms α} :
    terms.check = .ok () ↔
      (Scalar.isFinite terms.initialCapital = true ∧ ¬terms.initialCapital < leastCapital) ∧
        Scalar.isBelow 0 feeRateBound terms.feeRate = true := by
  rw [check]
  by_cases hcapital : Scalar.isFinite terms.initialCapital = true ∧ ¬terms.initialCapital < leastCapital
  · rw [if_neg (by simpa using hcapital), and_iff_right hcapital]
    by_cases hfee : Scalar.isBelow 0 feeRateBound terms.feeRate = true
    · rw [if_neg (by simpa using hfee)]
      exact iff_of_true rfl hfee
    · rw [if_pos (by simpa using hfee)]
      exact iff_of_false (by simp) hfee
  · have hfault : (!Scalar.isFinite terms.initialCapital ||
        terms.initialCapital < leastCapital) = true := by
      by_contra hnone
      exact hcapital (by simpa using hnone)
    rw [if_pos hfault]
    exact iff_of_false (by simp) fun hboth => hcapital hboth.1

/-- The terms of a run that gives none pass the check. -/
theorem Terms.default_passes : (Terms.default : Terms Binary64).check = .ok () := by
  decide +kernel

theorem Terms.check_eq_ok_iff {terms : Terms Rat} : terms.check = .ok () ↔ terms.Valid := by
  have hbound : (Terms.feeRateBound : Rat) = 1 / 10 := by norm_num [Terms.feeRateBound, Scalar.ratio]
  have hleast : (Terms.leastCapital : Rat) = 100 := by norm_num [Terms.leastCapital]
  rw [Terms.check, hbound, hleast]
  by_cases hcapital : 100 ≤ terms.initialCapital
  · by_cases hfee : Scalar.isBelow 0 (1 / 10) terms.feeRate = true
    · rw [if_neg (by simpa using hcapital), if_neg (by simpa using hfee)]
      obtain ⟨hnonneg, hlt⟩ := Scalar.isBelow_rat.mp hfee
      exact iff_of_true rfl ⟨hcapital, hnonneg, hlt⟩
    · rw [if_neg (by simpa using hcapital), if_pos (by simpa using hfee)]
      refine iff_of_false (by simp) fun hvalid => ?_
      exact hfee (Scalar.isBelow_rat.mpr ⟨hvalid.fee_nonneg, hvalid.fee_lt⟩)
  · rw [if_pos (by simpa using hcapital)]
    exact iff_of_false (by simp) fun hvalid => hcapital hvalid.capital_ge

theorem Bar.hasValidClose_rat {bar : Bar Rat} : bar.hasValidClose = true ↔ 0 < bar.close := by
  simp [Bar.hasValidClose]

namespace Simulation

variable {α : Type} [Scalar α]

/-- The bars can be traded and the signal has a position for each of them. -/
structure Tradable (bars : List (Bar α)) (signal : Series Position) : Prop where
  nonempty : bars ≠ []
  ascending : (bars.map Bar.date).Pairwise (· < ·)
  validClose : ∀ bar ∈ bars, bar.hasValidClose = true
  covered : ∀ bar ∈ bars, (signal.get? bar.date).isSome = true

theorem Tradable.close_pos {bars : List (Bar Rat)} {signal : Series Position}
    (hbars : Tradable bars signal) {bar : Bar Rat} (hbar : bar ∈ bars) : 0 < bar.close :=
  Bar.hasValidClose_rat.mp (hbars.validClose bar hbar)

omit [Scalar α] in
theorem ascend_iff {bars : List (Bar α)} :
    Bar.ascend bars = true ↔ (bars.map Bar.date).Pairwise (· < ·) := by
  rw [← List.isChain_iff_pairwise]
  induction bars with
  | nil => simp [Bar.ascend]
  | cons first rest ih =>
      cases rest with
      | nil => simp [Bar.ascend]
      | cons second rest =>
          rw [Bar.ascend, Bool.and_eq_true, ih, decide_eq_true_eq]
          simp only [List.map_cons, List.isChain_cons_cons]

theorem checkBars_eq_ok_iff {bars : List (Bar α)} {signal : Series Position} :
    checkBars bars signal = .ok () ↔ Tradable bars signal := by
  unfold checkBars
  constructor
  · intro h
    split_ifs at h with hempty hascend
    split at h
    · cases h
    · next hvalid =>
      split at h
      · cases h
      · next hcovered =>
        rw [List.find?_eq_none] at hvalid hcovered
        refine ⟨by simpa using hempty, ascend_iff.mp (by simpa using hascend), ?_, ?_⟩
        · simpa using hvalid
        · simpa [Option.isSome_iff_ne_none] using hcovered
  · rintro ⟨hnonempty, hascending, hvalid, hcovered⟩
    have hinvalid : (bars.find? fun bar => !bar.hasValidClose) = none := by simpa using hvalid
    have huncovered : (bars.find? fun bar => (signal.get? bar.date).isNone) = none := by
      simpa [Option.isSome_iff_ne_none] using hcovered
    rw [if_neg (by simpa using hnonempty), if_neg (by simpa using ascend_iff.mpr hascending),
      hinvalid, huncovered]

theorem run_eq_ok_iff {terms : Terms α} {bars : List (Bar α)} {signal : Series Position}
    {result : Outcome α} :
    run terms bars signal = .ok result ↔
      terms.check = .ok () ∧ Tradable bars signal ∧ result = outcome terms bars signal := by
  rw [← checkBars_eq_ok_iff, run]
  cases hterms : terms.check with
  | error fault => simp [bind, Except.bind]
  | ok _ =>
      cases hbars : checkBars bars signal with
      | error fault => simp [bind, Except.bind]
      | ok _ => simp [bind, Except.bind, pure, Except.pure, eq_comm]

/-! ### A market that can be traded

Both reversals occur in it. The second short loses more than the account has, and what the signal asks
for on the last two days cannot be entered.
-/

namespace Sample

def terms (convention : FeeConvention) : Terms Rat := ⟨10000, 1 / 100, convention⟩

def bars : List (Bar Rat) :=
  [(0, 100), (1, 120), (2, 60), (3, 90), (4, 400), (7, 50)].map fun (day, close) =>
    ⟨⟨day⟩, close, close, close, close, 0⟩

def signal : Series Position where
  entries := [(⟨0⟩, .long), (⟨1⟩, .short), (⟨2⟩, .long), (⟨3⟩, .short), (⟨4⟩, .long), (⟨7⟩, .short)]
  ascending := by decide

theorem terms_valid (convention : FeeConvention) : (terms convention).Valid where
  capital_ge := by norm_num [terms]
  fee_nonneg := by norm_num [terms]
  fee_lt := by norm_num [terms]

theorem tradable : Tradable bars signal where
  nonempty := by simp [bars]
  ascending := by decide
  validClose := by simp [bars, Bar.hasValidClose_rat]
  covered := by decide

theorem run_eq_ok (convention : FeeConvention) :
    run (terms convention) bars signal = .ok (outcome (terms convention) bars signal) :=
  run_eq_ok_iff.mpr ⟨Terms.check_eq_ok_iff.mpr (terms_valid convention), tradable, rfl⟩

end Sample

end Simulation

end Backtest
