import Backtest.Proofs.Aggregate.Acceptance
import Backtest.Proofs.Series.Axes
import Backtest.Proofs.Series.Lists
import Backtest.Proofs.Series.Pointwise
import Backtest.Scalar.Rational

/-!
# The dates on which signals are combined

The rows of a combination stand on the dates that all signals have, and in every row stands what each
signal says on that date: the cash that would stand in for a missing position is never needed. So nothing
about the dates can keep signals from being combined, and what they say on other dates makes no difference,
not even to a majority that remembers a position from row to row.
-/

namespace Backtest

namespace NamedSignal

/-- The signals have one name, and they say the same on the dates of an axis. -/
structure AgreeOn (axis : Axis) (first second : NamedSignal) : Prop where
  name_eq : first.name = second.name
  positions : ∀ date ∈ axis.dates, first.positions.get? date = second.positions.get? date

def restrictTo (axis : Axis) (signal : NamedSignal) : NamedSignal :=
  { signal with positions := signal.positions.restrictTo axis }

theorem restrictTo_agreeOn (axis : Axis) (signal : NamedSignal) :
    (signal.restrictTo axis).AgreeOn axis signal where
  name_eq := rfl
  positions _ hdate := Series.get?_restrictTo hdate

end NamedSignal

namespace Aggregate

/-- The dates that all signals have. -/
def axis (signals : List NamedSignal) : Axis := Series.commonAxis (signals.map NamedSignal.positions)

variable {signals others : List NamedSignal} {date : Date}

/-! ### Rows -/

theorem dates_rows (signals : List NamedSignal) : (rows signals).dates = (axis signals).dates :=
  Series.dates_onAxis _ _

theorem mem_axis_iff (hsome : signals ≠ []) :
    date ∈ (axis signals).dates ↔ ∀ signal ∈ signals, date ∈ signal.positions.dates := by
  rw [axis, Series.mem_commonAxis_iff (by simpa using hsome), List.forall_mem_map]

/-- Every cell of a row is what its signal says on the date. -/
theorem forall₂_of_mem_rows {row : List Position} (hrow : (date, row) ∈ (rows signals).entries) :
    List.Forall₂ (fun signal position => (date, position) ∈ signal.positions.entries) signals row := by
  obtain ⟨day, hday, hcells⟩ := List.mem_map.mp hrow
  cases hcells
  rw [List.forall₂_map_right_iff, List.forall₂_same]
  intro signal hsignal
  have hdate := (mem_axis_iff (List.ne_nil_of_mem hsignal)).mp hday signal hsignal
  obtain ⟨position, hposition⟩ := Series.mem_dates_iff.mp hdate
  rw [hposition]
  exact Series.get?_eq_some_iff.mp hposition

/-- Positions that are related signal by signal are related in every row. -/
theorem rows_related {R : Position → Position → Prop} (hcash : R .cash .cash)
    (hsignals : List.Forall₂ (fun signal other => signal.positions.Pointwise R other.positions)
      signals others) :
    (rows signals).Pointwise (List.Forall₂ R) (rows others) := by
  have haxis : Series.commonAxis (signals.map NamedSignal.positions) =
      Series.commonAxis (others.map NamedSignal.positions) := by
    apply Series.commonAxis_congr
    rw [List.forall₂_map_left_iff, List.forall₂_map_right_iff]
    exact hsignals.imp fun _ _ hsignal => hsignal.dates_eq
  rw [rows, rows, haxis]
  refine Series.pointwise_onAxis fun date _ => ?_
  rw [List.forall₂_map_left_iff, List.forall₂_map_right_iff]
  exact hsignals.imp fun _ _ hsignal => hsignal.getD_get? hcash date

theorem rows_congr (haxis : axis others = axis signals)
    (hagree : List.Forall₂ (NamedSignal.AgreeOn (axis signals)) others signals) :
    rows others = rows signals := by
  rw [rows, rows, ← axis, ← axis, haxis]
  refine Series.onAxis_congr fun date hdate => map_eq_map_iff_forall₂.mpr ?_
  exact hagree.imp fun _ _ hsignals => by rw [hsignals.positions date hdate]

/-! ### Combining -/

variable {α : Type} [Scalar α] {method : Method α}

theorem combine_congr (method : Method α) (haxis : axis others = axis signals)
    (hagree : List.Forall₂ (NamedSignal.AgreeOn (axis signals)) others signals) :
    combine others method = combine signals method := by
  have hnames : others.map NamedSignal.name = signals.map NamedSignal.name :=
    map_eq_map_iff_forall₂.mpr (hagree.imp fun _ _ hsignals => hsignals.name_eq)
  have hempty : others.isEmpty = signals.isEmpty := by
    have hsame := congrArg List.isEmpty hnames
    rwa [List.isEmpty_map, List.isEmpty_map] at hsame
  simp only [combine, hnames, hempty, rows_congr haxis hagree]

theorem axis_restrictTo (signals : List NamedSignal) :
    axis (signals.map (NamedSignal.restrictTo (axis signals))) = axis signals := by
  have hpositions : (signals.map (NamedSignal.restrictTo (axis signals))).map NamedSignal.positions =
      (signals.map NamedSignal.positions).map (Series.restrictTo (axis signals)) := by
    rw [List.map_map, List.map_map]
    rfl
  rw [axis, hpositions]
  exact Series.commonAxis_restrictTo _

theorem combine_restrictTo (signals : List NamedSignal) (method : Method α) :
    combine (signals.map (NamedSignal.restrictTo (axis signals))) method = combine signals method := by
  refine combine_congr method (axis_restrictTo signals) ?_
  rw [List.forall₂_map_left_iff, List.forall₂_same]
  exact fun signal _ => signal.restrictTo_agreeOn (axis signals)

/-! ### Why signals are not combined -/

/-- A parameter of the method, the names of the strategies or the text of a vote is wrong. -/
def OfMethod (fault : Error) : Prop :=
  (∃ cause, fault = .validation cause) ∨ ∃ refusal, fault = .formula refusal

variable {names : List String} {fault : Error}

theorem ofMethod_of_normalizedWeights {weights : Option (Weights α)}
    (hweights : normalizedWeights names weights = .error fault) : OfMethod fault := by
  simp only [normalizedWeights] at hweights
  split at hweights
  · cases hweights
    exact .inl ⟨_, rfl⟩
  · split_ifs at hweights
    cases hweights
    exact .inl ⟨_, rfl⟩

theorem ofMethod_of_checkThresholds {threshold exit : α}
    (hcheck : checkThresholds threshold exit = .error fault) : OfMethod fault := by
  rw [checkThresholds] at hcheck
  split_ifs at hcheck
  · cases hcheck
    exact .inl ⟨_, rfl⟩
  · cases hcheck
    exact .inl ⟨_, rfl⟩

theorem ofMethod_of_combineRows {rows : Series (List Position)}
    (hcombine : combineRows names rows method = .error fault) : OfMethod fault := by
  cases method with
  | weighted weights =>
      rcases bind_eq_error_iff.mp hcombine with hweights | ⟨shares, _, hresult⟩
      · exact ofMethod_of_normalizedWeights hweights
      · cases hresult
  | majority threshold exitThreshold =>
      cases threshold with
      | none => cases hcombine
      | some threshold =>
          rcases bind_eq_error_iff.mp hcombine with hcheck | ⟨_, _, hresult⟩
          · exact ofMethod_of_checkThresholds hcheck
          · cases hresult
  | custom expression =>
      rcases bind_eq_error_iff.mp hcombine with hparse | ⟨vote, _, hresult⟩
      · cases hvote : Vote.parse expression with
        | ok vote =>
            rw [hvote] at hparse
            cases hparse
        | error refusal =>
            rw [hvote] at hparse
            cases hparse
            exact .inr ⟨refusal, rfl⟩
      · cases hresult

theorem ofMethod_of_combine (hcombine : combine signals method = .error fault) : OfMethod fault := by
  unfold combine at hcombine
  split_ifs at hcombine
  · cases hcombine
    exact .inl ⟨_, rfl⟩
  · cases hrepeated : firstRepeated? [] (signals.map NamedSignal.name) with
    | some name =>
        simp only [hrepeated] at hcombine
        cases hcombine
        exact .inl ⟨_, rfl⟩
    | none =>
        simp only [hrepeated] at hcombine
        exact ofMethod_of_combineRows hcombine

/-! ### What is combined -/

/-- The series of a combination are built on these dates from as many values. -/
structure BuiltOn (dates : List Date) (combination : Combination α) : Prop where
  positions : Series.ofLists dates combination.positions.values = .ok combination.positions
  scores : ∀ scores, combination.scores = some scores → Series.ofLists dates scores.values = .ok scores

theorem dates_scores_of_combineRows {rows : Series (List Position)} {combination : Combination α}
    (hcombine : combineRows names rows method = .ok combination) {scores : Series α}
    (hscores : combination.scores = some scores) : scores.dates = rows.dates := by
  cases method with
  | weighted weights =>
      obtain ⟨shares, _, hresult⟩ := bind_eq_ok_iff.mp hcombine
      cases hresult
      cases hscores
      exact Series.dates_map _ rows
  | majority threshold exitThreshold =>
      cases threshold with
      | none =>
          cases hcombine
          cases hscores
      | some threshold =>
          obtain ⟨_, _, hresult⟩ := bind_eq_ok_iff.mp hcombine
          cases hresult
          cases hscores
  | custom expression =>
      obtain ⟨vote, _, hresult⟩ := bind_eq_ok_iff.mp hcombine
      cases hresult
      cases hscores

theorem builtOn_of_combine {combination : Combination α}
    (hcombine : combine signals method = .ok combination) :
    combination.positions.dates = (axis signals).dates ∧ BuiltOn (axis signals).dates combination := by
  obtain ⟨_, hrows⟩ := combine_eq_ok_iff.mp hcombine
  have hpositions := (dates_of_combineRows hrows).trans (dates_rows signals)
  refine ⟨hpositions, ?_, fun scores hscores => ?_⟩
  · rw [← hpositions]
    exact Series.ofLists_dates_values combination.positions
  · rw [← (dates_scores_of_combineRows hrows hscores).trans (dates_rows signals)]
    exact Series.ofLists_dates_values scores

/-- How signals are aligned on the dates that all of them have. -/
structure Aligned (signals : List NamedSignal) (method : Method α) : Prop where
  mem_dates : ∀ date, date ∈ (rows signals).dates ↔ ∀ signal ∈ signals, date ∈ signal.positions.dates
  ascending : (rows signals).dates.Pairwise (· < ·)
  cells : ∀ date row, (date, row) ∈ (rows signals).entries →
    List.Forall₂ (fun signal position => (date, position) ∈ signal.positions.entries) signals row
  accepted : (∃ combination, combine signals method = .ok combination) ↔
    method.Usable (signals.map NamedSignal.name)
  refused : ∀ fault, combine signals method = .error fault → OfMethod fault
  built : ∀ combination, combine signals method = .ok combination →
    combination.positions.dates = (rows signals).dates ∧ BuiltOn (rows signals).dates combination
  congr : ∀ others, axis others = axis signals →
    List.Forall₂ (NamedSignal.AgreeOn (axis signals)) others signals →
    combine others method = combine signals method
  restrict : combine (signals.map (NamedSignal.restrictTo (axis signals))) method = combine signals method

/-- **The dates on which signals are combined.** Signals under distinct names are combined on the dates
that all of them have, in order, and every cell of a row is what its signal says on the date. Whether they
can be combined is up to the names and the method alone. The series of the combination are built on these
dates without a fault. Signals with the same names, the same common dates and the same positions on them
are combined to the same, so it makes no difference when all other dates are left out. -/
theorem combine_aligned (hsome : signals ≠ []) (hnames : (signals.map NamedSignal.name).Nodup)
    (method : Method α) : Aligned signals method where
  mem_dates date := by rw [dates_rows, mem_axis_iff hsome]
  ascending := (rows signals).ascending
  cells date row hrow := forall₂_of_mem_rows hrow
  accepted := by rw [exists_combine_iff, and_iff_right hsome, and_iff_right hnames]
  refused fault hfault := ofMethod_of_combine hfault
  built combination hcombine := by
    rw [dates_rows]
    exact builtOn_of_combine hcombine
  congr others haxis hagree := combine_congr method haxis hagree
  restrict := combine_restrictTo signals method

/-! ### Two strategies that share two dates

Both directions have half of the votes on the second date that they share, so the majority stays long.
-/

namespace Sample

def trend : NamedSignal := ⟨"trend", ⟨[(⟨0⟩, .long), (⟨1⟩, .short), (⟨4⟩, .short)], by decide⟩⟩

def revert : NamedSignal :=
  ⟨"revert", ⟨[(⟨0⟩, .long), (⟨2⟩, .short), (⟨3⟩, .short), (⟨4⟩, .long), (⟨5⟩, .long)], by decide⟩⟩

end Sample

theorem combine_aligned_sample :
    let signals := [Sample.trend, Sample.revert]
    let method : Method Rat := .majority (some (1 / 2)) none
    signals ≠ [] ∧ (signals.map NamedSignal.name).Nodup ∧ Aligned signals method ∧
      ∃ combination, combine (signals.map (NamedSignal.restrictTo (axis signals))) method = .ok combination ∧
        combination.positions.entries = [(⟨0⟩, .long), (⟨4⟩, .long)] := by
  intro signals method
  have hsome : signals ≠ [] := List.cons_ne_nil _ _
  have hnames : (signals.map NamedSignal.name).Nodup := by decide
  have haligned := combine_aligned hsome hnames method
  have hcombine : succeedsWith (fun combination : Combination Rat =>
      combination.positions.entries = [(⟨0⟩, .long), (⟨4⟩, .long)]) (combine signals method) = true := by
    decide +kernel
  obtain ⟨combination, hcombination, hentries⟩ := exists_of_succeedsWith hcombine
  refine ⟨hsome, hnames, haligned, combination, ?_, of_decide_eq_true hentries⟩
  rw [haligned.restrict, hcombination]

end Aggregate

end Backtest
