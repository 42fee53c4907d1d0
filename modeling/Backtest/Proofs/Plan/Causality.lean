import Mathlib
import Backtest.Plan
import Backtest.Proofs.Aggregate.Cutoff
import Backtest.Proofs.Condition.Evaluation
import Backtest.Proofs.Simulation.Cutoff
import Backtest.Proofs.Strategy.Cutoff

/-!
# No look-ahead

What a plan's run does up to a date depends on nothing that happens after it. The plan may be run on the
bars and on the conditions as they are known on that date, and it makes the same points, trades and
round trips; only the figures that judge the whole run may differ. The statement is about any scalars:
both runs perform the same operations on the same numbers, so it does not matter how these round.
-/

namespace Backtest.Plan

/-! ### A sample -/

namespace Sample

def series {β : Type} (value : Date → β) : Series β :=
  .onAxis ⟨Simulation.Sample.signal.dates, by decide⟩ value

def up (date : Date) : Bool := date = ⟨0⟩ ∨ date = ⟨4⟩

def down (date : Date) : Bool := date = ⟨2⟩ ∨ date = ⟨3⟩

def conditions : ConditionSet where
  entries := [("calm", series fun date => !down date), ("down", series down), ("up", series up)]
  ascending := by decide

def strategies : List Strategy :=
  [⟨"follow", .longCash, some "up", none, none, none⟩,
    ⟨"swing", .longShort, some "up", none, some "down", none⟩,
    ⟨"stay", .longShort, some "calm", none, some "down", none⟩]

def signals : List NamedSignal :=
  [⟨"follow", series fun date => if up date then .long else .cash⟩,
    ⟨"swing", series fun date => if up date then .long else if down date then .short else .cash⟩,
    ⟨"stay", series fun date => if down date then .short else .long⟩]

def plan : Plan Rat := .aggregate strategies (.majority (some (2 / 3)) none)

def positions : Series Position :=
  (Aggregate.rows signals).scan (Aggregate.majorityStep (2 / 3 : Rat) (2 / 3 / 2)) .cash

/-- A run's points and trades need no roots. -/
@[reducible]
def roots : Roots Rat := ⟨id, fun base _ => base⟩

theorem mapM_namedSignal : strategies.mapM (namedSignal conditions) = .ok signals := by
  have hup : Condition.evalText conditions "up" = .ok (series up) :=
    Condition.evalText_name (by decide) rfl
  have hdown : Condition.evalText conditions "down" = .ok (series down) :=
    Condition.evalText_name (by decide) rfl
  have hcalm : Condition.evalText conditions "calm" = .ok (series fun date => !down date) :=
    Condition.evalText_name (by decide) rfl
  refine mapM_eq_ok_iff.mpr (.cons ?_ (.cons ?_ (.cons ?_ .nil)))
  · exact bind_eq_ok_iff.mpr ⟨_, bind_eq_ok_iff.mpr ⟨_, hup, rfl⟩, rfl⟩
  · exact bind_eq_ok_iff.mpr ⟨_, bind_eq_ok_iff.mpr ⟨_, hup, bind_eq_ok_iff.mpr ⟨_, hdown, rfl⟩⟩, rfl⟩
  · exact bind_eq_ok_iff.mpr ⟨_, bind_eq_ok_iff.mpr ⟨_, hcalm, bind_eq_ok_iff.mpr ⟨_, hdown, rfl⟩⟩, rfl⟩

theorem signal_plan : ∃ combination, plan.signal conditions = .ok (positions, combination) := by
  have hcheck : Aggregate.checkThresholds (2 / 3 : Rat) (2 / 3 / 2) = .ok () := by
    norm_num [Aggregate.checkThresholds, Scalar.isWithin]
  have hcombine : ∃ combination, combination.positions = positions ∧
      Aggregate.combine signals (.majority (some (2 / 3 : Rat)) none) = .ok combination :=
    ⟨_, rfl, bind_eq_ok_iff.mpr ⟨(), hcheck, rfl⟩⟩
  obtain ⟨combination, hpositions, hcombined⟩ := hcombine
  refine ⟨combination, bind_eq_ok_iff.mpr ⟨signals, mapM_namedSignal, ?_⟩⟩
  rw [← hpositions]
  exact bind_eq_ok_iff.mpr ⟨combination, hcombined, rfl⟩

theorem tradable : Simulation.Tradable Simulation.Sample.bars positions :=
  { Simulation.Sample.tradable with covered := by decide +kernel }

end Sample

/-! ### Signals up to a date -/

variable {α : Type} [Scalar α] {plan : Plan α} {conditions : ConditionSet} {cutoff : Date}

theorem namedSignal_upTo (strategy : Strategy) (signal : NamedSignal)
    (hsignal : namedSignal conditions strategy = .ok signal) :
    namedSignal (conditions.upTo cutoff) strategy = .ok (signal.upTo cutoff) := by
  obtain ⟨positions, hpositions, hresult⟩ := bind_eq_ok_iff.mp hsignal
  cases hresult
  exact bind_eq_ok_iff.mpr ⟨_, Strategy.positions_upTo hpositions, rfl⟩

theorem signal_upTo (cutoff : Date) {positions : Series Position} {combination : Option (Combination α)}
    (hsignal : plan.signal conditions = .ok (positions, combination)) :
    ∃ known, plan.signal (conditions.upTo cutoff) = .ok (positions.upTo cutoff, known) := by
  cases plan with
  | single strategy =>
      obtain ⟨found, hpositions, hresult⟩ := bind_eq_ok_iff.mp hsignal
      cases hresult
      exact ⟨none, bind_eq_ok_iff.mpr ⟨_, Strategy.positions_upTo hpositions, rfl⟩⟩
  | aggregate strategies method =>
      obtain ⟨signals, hsignals, hrest⟩ := bind_eq_ok_iff.mp hsignal
      obtain ⟨combined, hcombined, hresult⟩ := bind_eq_ok_iff.mp hrest
      cases hresult
      obtain ⟨known, hknown, hpositions⟩ := Aggregate.combine_upTo cutoff hcombined
      refine ⟨some known, bind_eq_ok_iff.mpr ⟨_, mapM_eq_ok_of_forall namedSignal_upTo hsignals, ?_⟩⟩
      rw [← hpositions]
      exact bind_eq_ok_iff.mpr ⟨known, hknown, rfl⟩

/-! ### Runs up to a date -/

variable [Roots α] {bars : List (Bar α)} {terms : Terms α} {risk : RiskTerms α} {result : Result α}

theorem run_eq_ok_iff :
    plan.run bars conditions terms risk = .ok result ↔
      ∃ positions combination outcome, plan.signal conditions = .ok (positions, combination) ∧
        Simulation.run terms bars positions = .ok outcome ∧
        result = ⟨outcome, .ofOutcome outcome risk, combination⟩ := by
  constructor
  · intro hrun
    obtain ⟨⟨positions, combination⟩, hsignal, hrest⟩ := bind_eq_ok_iff.mp hrun
    obtain ⟨outcome, houtcome, hresult⟩ := bind_eq_ok_iff.mp hrest
    cases hresult
    exact ⟨positions, combination, outcome, hsignal, houtcome, rfl⟩
  · rintro ⟨positions, combination, outcome, hsignal, houtcome, rfl⟩
    exact bind_eq_ok_iff.mpr ⟨_, hsignal, bind_eq_ok_iff.mpr ⟨outcome, houtcome, rfl⟩⟩

omit [Roots α] in
theorem tradable_upTo {signal : Series Position} (hbars : Simulation.Tradable bars signal)
    (hsome : ∃ bar ∈ bars, bar.date ≤ cutoff) :
    Simulation.Tradable (bars.filter fun bar => bar.date ≤ cutoff) (signal.upTo cutoff) where
  nonempty := by
    obtain ⟨bar, hbar, hkept⟩ := hsome
    exact List.ne_nil_of_mem (List.mem_filter.mpr ⟨hbar, decide_eq_true hkept⟩)
  ascending := hbars.ascending.sublist (List.filter_sublist.map Bar.date)
  validClose := fun bar hbar => hbars.validClose bar (List.mem_filter.mp hbar).1
  covered := by
    intro bar hbar
    obtain ⟨hmem, hkept⟩ := List.mem_filter.mp hbar
    rw [Series.get?_upTo, if_pos (of_decide_eq_true hkept)]
    exact hbars.covered bar hmem

/-- **No look-ahead.** A run that succeeds also succeeds on what is known on a cut-off date, if there is
a bar by then, and what it leaves behind is what the whole run had left behind by that date. -/
theorem run_upTo (hsome : ∃ bar ∈ bars, bar.date ≤ cutoff)
    (hrun : plan.run bars conditions terms risk = .ok result) :
    ∃ known, plan.run (bars.filter fun bar => bar.date ≤ cutoff) (conditions.upTo cutoff) terms risk =
        .ok known ∧
      known.outcome.equity = (result.outcome.equity.filter fun point => point.date ≤ cutoff) ∧
      known.outcome.trades = (result.outcome.trades.filter fun trade => trade.date ≤ cutoff) ∧
      known.outcome.roundTrips =
        result.outcome.roundTrips.filter fun trip => trip.exitDate ≤ cutoff := by
  obtain ⟨positions, combination, outcome, hsignal, houtcome, rfl⟩ := run_eq_ok_iff.mp hrun
  obtain ⟨hterms, hbars, rfl⟩ := Simulation.run_eq_ok_iff.mp houtcome
  obtain ⟨knownCombination, hknown⟩ := signal_upTo cutoff hsignal
  have hagree : ∀ bar ∈ bars.filter fun bar => bar.date ≤ cutoff,
      (positions.upTo cutoff).get? bar.date = positions.get? bar.date := by
    intro bar hbar
    rw [Series.get?_upTo, if_pos (of_decide_eq_true (List.mem_filter.mp hbar).2)]
  have hsame := Simulation.outcome_congr terms hagree
  have hrunKnown := Simulation.run_eq_ok_iff.mpr ⟨hterms, tradable_upTo hbars hsome, rfl⟩
  refine ⟨_, run_eq_ok_iff.mpr ⟨_, _, _, hknown, hrunKnown, rfl⟩, ?_, ?_, ?_⟩
  · rw [hsame]
    exact (Simulation.filter_equity_outcome hbars.ascending).symm
  · rw [hsame]
    exact (Simulation.filter_trades_outcome hbars.ascending).symm
  · rw [hsame]
    exact (Simulation.filter_roundTrips_outcome hbars.ascending).symm

theorem run_upTo_sample :
    (∃ bar ∈ Simulation.Sample.bars, bar.date ≤ ⟨2⟩) ∧
    ∃ result, @run Rat _ Sample.roots Sample.plan Simulation.Sample.bars Sample.conditions
        (Simulation.Sample.terms .legacy) ⟨0, 95 / 100⟩ = .ok result ∧
      ∃ known, @run Rat _ Sample.roots Sample.plan
          (Simulation.Sample.bars.filter fun bar => bar.date ≤ ⟨2⟩) (Sample.conditions.upTo ⟨2⟩)
          (Simulation.Sample.terms .legacy) ⟨0, 95 / 100⟩ = .ok known ∧
        known.outcome.equity =
          (result.outcome.equity.filter fun point => point.date ≤ ⟨2⟩) ∧
        known.outcome.trades =
          (result.outcome.trades.filter fun trade => trade.date ≤ ⟨2⟩) ∧
        known.outcome.roundTrips =
          result.outcome.roundTrips.filter fun trip => trip.exitDate ≤ ⟨2⟩ := by
  have hsome : ∃ bar ∈ Simulation.Sample.bars, bar.date ≤ ⟨2⟩ := by decide +kernel
  obtain ⟨combination, hsignal⟩ := Sample.signal_plan
  have hterms := Terms.check_eq_ok_iff.mpr (Simulation.Sample.terms_valid .legacy)
  have houtcome := Simulation.run_eq_ok_iff.mpr ⟨hterms, Sample.tradable, rfl⟩
  obtain ⟨result, hrun⟩ : ∃ result, @run Rat _ Sample.roots Sample.plan Simulation.Sample.bars
      Sample.conditions (Simulation.Sample.terms .legacy) ⟨0, 95 / 100⟩ = .ok result :=
    ⟨_, (@run_eq_ok_iff Rat _ _ _ Sample.roots _ _ _ _).mpr ⟨_, _, _, hsignal, houtcome, rfl⟩⟩
  exact ⟨hsome, result, hrun, @run_upTo Rat _ _ _ _ Sample.roots _ _ _ _ hsome hrun⟩

end Backtest.Plan
