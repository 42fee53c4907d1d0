import Backtest.Plan
import Backtest.Proofs.Aggregate.Acceptance
import Backtest.Proofs.Simulation.Checks
import Backtest.Proofs.Strategy.Readiness

/-!
# Plans that run

On tradable bars, and over conditions with values on the days of the bars, a plan runs exactly when it
is ready: its strategies have positions, their names are distinct, and its method can be used with
these names. What the conditions say makes no difference, because the signal always stands on the days
of the bars.
-/

namespace Backtest.Plan

variable {α : Type} [Scalar α] {conditions : ConditionSet} {dates : List Date}
  {strategies : List Strategy} {signals : List NamedSignal} {plan : Plan α}

def Ready (available : List String) : Plan α → Prop
  | .single strategy => strategy.Ready available
  | .aggregate strategies method =>
    (strategies ≠ [] ∧ (strategies.map Strategy.name).Nodup) ∧
      (∀ strategy ∈ strategies, strategy.Ready available) ∧
        method.Usable (strategies.map Strategy.name)

/-! ### The signals of several strategies -/

omit [Scalar α] in
theorem namedSignal_eq_ok_iff {strategy : Strategy} {signal : NamedSignal} :
    namedSignal conditions strategy = .ok signal ↔
      signal.name = strategy.name ∧ strategy.positions conditions = .ok signal.positions := by
  simp only [namedSignal, bind_eq_ok_iff, pure_eq_ok_iff]
  constructor
  · rintro ⟨positions, hpositions, rfl⟩
    exact ⟨rfl, hpositions⟩
  · rintro ⟨hname, hpositions⟩
    exact ⟨_, hpositions, by rw [← hname]⟩

theorem names_of_mapM (hsignals : strategies.mapM (namedSignal conditions) = .ok signals) :
    signals.map NamedSignal.name = strategies.map Strategy.name := by
  rw [mapM_eq_ok_iff] at hsignals
  induction hsignals with
  | nil => rfl
  | cons hsignal _ ih => rw [List.map_cons, List.map_cons, ih, (namedSignal_eq_ok_iff.mp hsignal).1]

theorem dates_of_mapM (haligned : conditions.Aligned dates)
    (hsignals : strategies.mapM (namedSignal conditions) = .ok signals) :
    ∀ signal ∈ signals, signal.positions.dates = dates := by
  rw [mapM_eq_ok_iff] at hsignals
  induction hsignals with
  | nil => simp
  | cons hsignal _ ih =>
      rw [List.forall_mem_cons]
      exact ⟨Strategy.dates_of_positions haligned (namedSignal_eq_ok_iff.mp hsignal).2, ih⟩

theorem exists_mapM_namedSignal_iff (haligned : conditions.Aligned dates) :
    (∃ signals, strategies.mapM (namedSignal conditions) = .ok signals) ↔
      ∀ strategy ∈ strategies, strategy.Ready conditions.names := by
  rw [exists_mapM_eq_ok_iff]
  refine forall₂_congr fun strategy _ => ?_
  rw [← Strategy.exists_positions_iff haligned]
  constructor
  · rintro ⟨signal, hsignal⟩
    exact ⟨_, (namedSignal_eq_ok_iff.mp hsignal).2⟩
  · rintro ⟨positions, hpositions⟩
    exact ⟨⟨strategy.name, positions⟩, namedSignal_eq_ok_iff.mpr ⟨rfl, hpositions⟩⟩

/-! ### The signal of a plan -/

theorem exists_signal_iff (haligned : conditions.Aligned dates) :
    (∃ result, plan.signal conditions = .ok result) ↔ plan.Ready conditions.names := by
  cases plan with
  | single strategy =>
      rw [Ready, ← Strategy.exists_positions_iff haligned]
      constructor
      · rintro ⟨result, hresult⟩
        obtain ⟨positions, hpositions, _⟩ := bind_eq_ok_iff.mp hresult
        exact ⟨positions, hpositions⟩
      · rintro ⟨positions, hpositions⟩
        exact ⟨_, bind_eq_ok_iff.mpr ⟨positions, hpositions, rfl⟩⟩
  | aggregate strategies method =>
      rw [Ready, ← exists_mapM_namedSignal_iff haligned]
      constructor
      · rintro ⟨result, hresult⟩
        obtain ⟨signals, hsignals, hrest⟩ := bind_eq_ok_iff.mp hresult
        obtain ⟨combination, hcombine, _⟩ := bind_eq_ok_iff.mp hrest
        have hnames := names_of_mapM hsignals
        obtain ⟨hsome, hnodup, husable⟩ := Aggregate.exists_combine_iff.mp ⟨combination, hcombine⟩
        rw [hnames] at hnodup husable
        refine ⟨⟨?_, hnodup⟩, ⟨signals, hsignals⟩, husable⟩
        rintro rfl
        cases hsignals
        exact hsome rfl
      · rintro ⟨⟨hsome, hnodup⟩, ⟨signals, hsignals⟩, husable⟩
        have hnames := names_of_mapM hsignals
        have hsignalsSome : signals ≠ [] := by
          rintro rfl
          exact hsome (List.map_eq_nil_iff.mp hnames.symm)
        rw [← hnames] at hnodup husable
        obtain ⟨combination, hcombine⟩ := Aggregate.exists_combine_iff.mpr ⟨hsignalsSome, hnodup, husable⟩
        exact ⟨_, bind_eq_ok_iff.mpr ⟨signals, hsignals, bind_eq_ok_iff.mpr ⟨combination, hcombine, rfl⟩⟩⟩

theorem dates_of_signal (haligned : conditions.Aligned dates)
    {result : Series Position × Option (Combination α)} (hsignal : plan.signal conditions = .ok result) :
    result.1.dates = dates := by
  cases plan with
  | single strategy =>
      obtain ⟨positions, hpositions, hresult⟩ := bind_eq_ok_iff.mp hsignal
      cases hresult
      exact Strategy.dates_of_positions haligned hpositions
  | aggregate strategies method =>
      obtain ⟨signals, hsignals, hrest⟩ := bind_eq_ok_iff.mp hsignal
      obtain ⟨combination, hcombine, hresult⟩ := bind_eq_ok_iff.mp hrest
      cases hresult
      exact Aggregate.dates_of_combine (dates_of_mapM haligned hsignals) hcombine

/-! ### The run of a plan -/

variable [Roots α] {bars : List (Bar α)} {terms : Terms α} {risk : RiskTerms α}

theorem exists_run_iff (hterms : terms.check = .ok ()) (hsome : bars ≠ [])
    (hascending : (bars.map Bar.date).Pairwise (· < ·))
    (hclose : ∀ bar ∈ bars, bar.hasValidClose = true)
    (haligned : conditions.Aligned (bars.map Bar.date)) :
    (∃ result, plan.run bars conditions terms risk = .ok result) ↔ plan.Ready conditions.names := by
  rw [← exists_signal_iff haligned]
  constructor
  · rintro ⟨result, hresult⟩
    obtain ⟨signal, hsignal, _⟩ := bind_eq_ok_iff.mp hresult
    exact ⟨signal, hsignal⟩
  · rintro ⟨⟨positions, combination⟩, hsignal⟩
    have hcovered : ∀ bar ∈ bars, (positions.get? bar.date).isSome = true := by
      intro bar hbar
      have hdates : positions.dates = bars.map Bar.date := dates_of_signal haligned hsignal
      rw [Series.isSome_get?_iff, hdates]
      exact List.mem_map_of_mem hbar
    have houtcome := Simulation.run_eq_ok_iff.mpr
      ⟨hterms, ⟨hsome, hascending, hclose, hcovered⟩, rfl⟩
    exact ⟨_, bind_eq_ok_iff.mpr ⟨_, hsignal, bind_eq_ok_iff.mpr ⟨_, houtcome, rfl⟩⟩⟩

/-- Strategies that are all ready are refused only for a name that two of them share. -/
theorem exists_run_eq_of_repeated (haligned : conditions.Aligned dates)
    (hready : ∀ strategy ∈ plan.strategies, strategy.Ready conditions.names)
    (hrepeated : ¬(plan.strategies.map Strategy.name).Nodup) :
    ∃ name, plan.run bars conditions terms risk = .error (.validation (.duplicateStrategy name)) := by
  cases plan with
  | single strategy => exact absurd (by simp [Plan.strategies]) hrepeated
  | aggregate members method =>
      have hmembers : ∃ signals, members.mapM (namedSignal conditions) = .ok signals :=
        (exists_mapM_namedSignal_iff haligned).mpr hready
      obtain ⟨signals, hsignals⟩ := hmembers
      have hnames : ¬(signals.map NamedSignal.name).Nodup := by
        rw [names_of_mapM hsignals]
        exact hrepeated
      obtain ⟨name, hcombine⟩ := Aggregate.exists_combine_eq_of_repeated method hnames
      have hsignal : (aggregate members method).signal conditions =
          .error (.validation (.duplicateStrategy name)) := by
        rw [signal, hsignals, ok_bind, hcombine, error_bind]
      exact ⟨name, by rw [run, hsignal, error_bind]⟩

end Backtest.Plan
