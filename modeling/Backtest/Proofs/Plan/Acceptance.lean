import Mathlib
import Backtest.Proofs.Condition.Printing
import Backtest.Proofs.Config.Methods
import Backtest.Proofs.Plan.Readiness
import Backtest.Proofs.Scalar.Rounded
import Backtest.Proofs.Simulation.Days

/-!
# Plans that are accepted

What a plan has to give can be said without running it. Its strategies give the formulas that their kinds
need, in words that the conditions know; several strategies have distinct names, and their method has
parameters that make sense for these names. Over a market that can be traded nothing else is asked for,
whether the scalars are exact or rounded.
-/

namespace Backtest

variable {α : Type} [Scalar α]

/-- Parameters that a method can be used with. Equal weights need none. Given weights are finite, not
negative and not all zero, as far as they belong to the strategies; thresholds are shares, the second
not above the first. -/
def Aggregate.Method.Acceptable (names : List String) : Aggregate.Method α → Prop
  | .weighted none => True
  | .weighted (some weights) =>
    (∀ name ∈ names, ∀ weight, weights.get? name = some weight →
        Scalar.isFinite weight = true ∧ ¬weight < 0) ∧
      ¬Scalar.sum (names.map fun name => (weights.get? name).getD 0) ≤ 0
  | .majority none _ => True
  | .majority (some threshold) exitThreshold =>
    let exit := exitThreshold.getD (threshold / ((2 : Nat) : α))
    (0 < threshold ∧ threshold ≤ 1) ∧ 0 ≤ exit ∧ exit ≤ threshold
  | .custom expression => ∃ vote, Vote.parse expression = .ok vote

def Plan.Acceptable (available : List String) : Plan α → Prop
  | .single strategy => strategy.Ready available
  | .aggregate strategies method =>
    (∀ strategy ∈ strategies, strategy.Ready available) ∧
      (strategies ≠ [] ∧ (strategies.map Strategy.name).Nodup) ∧
        method.Acceptable (strategies.map Strategy.name)

namespace Aggregate

variable {names : List String}

variable [LawfulScalar α] {method : Method α}

/-- A strategy without a weight weighs nothing, which is finite and not negative. -/
theorem usable_weighted_iff {weights : Weights α} :
    (Method.weighted (some weights)).Usable names ↔
      (Method.weighted (some weights)).Acceptable names := by
  refine and_congr ?_ ?_
  · rw [givenWeights, List.forall_mem_map]
    refine forall₂_congr fun name _ => ?_
    cases hweight : weights.get? name with
    | none => simp [LawfulScalar.isFinite_zero, LawfulScalar.zero_not_neg]
    | some weight => simp
  · rw [givenWeights, List.map_map]
    rfl

theorem usable_iff (hsome : names ≠ []) : method.Usable names ↔ method.Acceptable names := by
  cases method with
  | weighted weights =>
      cases weights with
      | none => exact iff_of_true (usable_of_no_weights hsome) trivial
      | some weights => exact usable_weighted_iff
  | majority threshold exitThreshold =>
      cases threshold with
      | none => exact Iff.rfl
      | some threshold =>
          refine and_congr_right fun _ => ?_
          rw [Scalar.isWithin, Bool.and_eq_true, decide_eq_true_iff, decide_eq_true_iff]
  | custom expression => exact Iff.rfl

end Aggregate

namespace Plan

variable {plan : Plan α} {conditions : ConditionSet}

theorem ready_iff_acceptable [LawfulScalar α] {available : List String} :
    plan.Ready available ↔ plan.Acceptable available := by
  cases plan with
  | single strategy => exact Iff.rfl
  | aggregate strategies method =>
      rw [Ready, Acceptable, and_left_comm]
      refine and_congr_right fun _ => and_congr_right fun hnames => ?_
      exact Aggregate.usable_iff fun hnone => hnames.1 (List.map_eq_nil_iff.mp hnone)

variable [Roots α] {bars : List (Bar α)} {terms : Terms α} {risk : RiskTerms α}

/-- The curve of a plan's run has one point for every bar, on its date and at its close. -/
theorem equity_of_run {result : Result α} (hrun : plan.run bars conditions terms risk = .ok result) :
    (result.outcome.equity.map fun point => (point.date, point.price)) =
      bars.map fun bar => (bar.date, bar.close) := by
  obtain ⟨⟨positions, combination⟩, _, hrest⟩ := bind_eq_ok_iff.mp hrun
  obtain ⟨outcome, houtcome, hresult⟩ := bind_eq_ok_iff.mp hrest
  obtain ⟨_, _, rfl⟩ := Simulation.run_eq_ok_iff.mp houtcome
  cases hresult
  exact Simulation.map_equity_outcome bars

/-! ### A market of rounded prices -/

namespace Sample

def roundedBars : List (Bar Binary64) :=
  [(0, 100), (1, 120), (2, 90)].map fun (day, close) => ⟨⟨day⟩, close, close, close, close, 0⟩

def trend : ConditionSet where
  entries := [("up", ⟨[(⟨0⟩, true), (⟨1⟩, false), (⟨2⟩, true)], by decide⟩)]
  ascending := by decide

def followers (weights : Option (Weights Binary64)) : Plan Binary64 :=
  .aggregate [⟨"follow", .longCash, some "up", none, none, none⟩,
    ⟨"mirror", .longCash, none, none, none, some "up"⟩] (.weighted weights)

/-- A weight without bound is not negative. -/
def unbounded : Weights Binary64 where
  entries := [("follow", 1 / 0), ("mirror", 1)]
  ascending := by decide

theorem default_check : (Terms.default : Terms Binary64).check = .ok () := Terms.default_passes

theorem roundedBars_ne_nil : roundedBars ≠ [] := by simp [roundedBars]

theorem roundedBars_ascending : (roundedBars.map Bar.date).Pairwise (· < ·) := by decide

theorem roundedBars_valid : ∀ bar ∈ roundedBars, bar.hasValidClose = true := by decide

theorem trend_aligned : trend.Aligned (roundedBars.map Bar.date) := by
  intro name series hseries
  have hentry : (name, series) ∈ trend.entries := NameTable.get?_eq_some_iff.mp hseries
  cases List.mem_singleton.mp hentry
  rfl

theorem followers_ready {strategy : Strategy} (hstrategy : strategy ∈ (followers none).strategies) :
    strategy.Ready trend.names := by
  have hparse : ∀ text ∈ ["up"], ∃ condition, Condition.parse trend.names text = .ok condition :=
    List.forall_mem_singleton.mpr ⟨.atom "up", Condition.parse_name (by decide) (by decide)⟩
  simp only [followers, Plan.strategies, List.mem_cons, List.not_mem_nil, or_false] at hstrategy
  rcases hstrategy with rfl | rfl
  · exact ⟨⟨.inl rfl, fun hkind => absurd hkind (by decide)⟩, hparse⟩
  · exact ⟨⟨.inr ⟨rfl, rfl⟩, fun hkind => absurd hkind (by decide)⟩, hparse⟩

theorem followers_acceptable : (followers none).Acceptable trend.names :=
  ⟨fun _ => followers_ready, ⟨by decide, by decide⟩, trivial⟩

end Sample

/-- **When a plan runs.** Over a market that can be traded, whose conditions have values on the days of the
bars, a plan runs exactly when it is acceptable, and then every bar has its point on the equity curve. -/
theorem run_iff_acceptable [LawfulScalar α] (hterms : terms.check = .ok ()) (hsome : bars ≠ [])
    (hascending : (bars.map Bar.date).Pairwise (· < ·))
    (hclose : ∀ bar ∈ bars, bar.hasValidClose = true)
    (haligned : conditions.Aligned (bars.map Bar.date)) :
    ((∃ result, plan.run bars conditions terms risk = .ok result) ↔
        plan.Acceptable conditions.names) ∧
      ∀ result, plan.run bars conditions terms risk = .ok result →
        (result.outcome.equity.map fun point => (point.date, point.price)) =
          bars.map fun bar => (bar.date, bar.close) := by
  refine ⟨?_, fun result => equity_of_run⟩
  rw [← ready_iff_acceptable]
  exact exists_run_iff hterms hsome hascending hclose haligned

theorem run_iff_acceptable_sample :
    (Terms.default : Terms Binary64).check = .ok () ∧ Sample.roundedBars ≠ [] ∧
      (Sample.roundedBars.map Bar.date).Pairwise (· < ·) ∧
      (∀ bar ∈ Sample.roundedBars, bar.hasValidClose = true) ∧
      Sample.trend.Aligned (Sample.roundedBars.map Bar.date) ∧
      (Sample.followers none).Acceptable Sample.trend.names ∧
      ∃ result, (Sample.followers none).run Sample.roundedBars Sample.trend Terms.default ⟨0, 1⟩ =
          .ok result ∧
        (result.outcome.equity.map fun point => (point.date, point.price)) =
          Sample.roundedBars.map fun bar => (bar.date, bar.close) := by
  refine ⟨Sample.default_check, Sample.roundedBars_ne_nil, Sample.roundedBars_ascending,
    Sample.roundedBars_valid, Sample.trend_aligned, Sample.followers_acceptable, ?_⟩
  obtain ⟨result, hrun⟩ : ∃ result, (Sample.followers none).run Sample.roundedBars Sample.trend
      Terms.default ⟨0, 1⟩ = .ok result :=
    (run_iff_acceptable Sample.default_check Sample.roundedBars_ne_nil Sample.roundedBars_ascending
      Sample.roundedBars_valid Sample.trend_aligned).1.mpr Sample.followers_acceptable
  exact ⟨result, hrun, equity_of_run hrun⟩

/-- A weight that is not negative and makes the total positive need not be usable: it may be infinite. -/
theorem run_refused_for_infinite_weight :
    (Terms.default : Terms Binary64).check = .ok () ∧ Sample.roundedBars ≠ [] ∧
      (Sample.roundedBars.map Bar.date).Pairwise (· < ·) ∧
      (∀ bar ∈ Sample.roundedBars, bar.hasValidClose = true) ∧
      Sample.trend.Aligned (Sample.roundedBars.map Bar.date) ∧
      (∀ strategy ∈ (Sample.followers (some Sample.unbounded)).strategies,
        strategy.Ready Sample.trend.names) ∧
      ((Sample.followers (some Sample.unbounded)).strategies.map Strategy.name).Nodup ∧
      Sample.unbounded.names = (Sample.followers (some Sample.unbounded)).strategies.map Strategy.name ∧
      (∀ weight ∈ Sample.unbounded.values, 0 ≤ weight) ∧ 0 < Scalar.sum Sample.unbounded.values ∧
      ¬∃ result, (Sample.followers (some Sample.unbounded)).run Sample.roundedBars Sample.trend
        Terms.default ⟨0, 1⟩ = .ok result := by
  refine ⟨Sample.default_check, Sample.roundedBars_ne_nil, Sample.roundedBars_ascending,
    Sample.roundedBars_valid, Sample.trend_aligned, fun _ => Sample.followers_ready,
    by decide, rfl, by decide, by decide, ?_⟩
  rw [exists_run_iff Sample.default_check Sample.roundedBars_ne_nil Sample.roundedBars_ascending
    Sample.roundedBars_valid Sample.trend_aligned, ready_iff_acceptable]
  rintro ⟨_, _, hweights, _⟩
  have hinfinite := (hweights "follow" (by decide) (1 / 0) rfl).1
  exact absurd hinfinite (by decide)

end Plan

end Backtest
