import Mathlib.Data.List.Basic
import Mathlib.Tactic.SplitIfs
import Backtest.Aggregate
import Backtest.Proofs.Error.Stages
import Backtest.Proofs.Lookup

/-!
# Signals that can be combined

Signals can be combined when there are some, when no two have the same name, and when the method can be
used with these names. Nothing that the signals say on any day makes a difference. The combined signal
stands on the dates that all signals have.
-/

namespace Backtest.Aggregate

variable {α : Type} [Scalar α] {names : List String}

/-- The method has usable weights for the names, usable thresholds or a vote that can be read. -/
def Method.Usable (names : List String) : Method α → Prop
  | .weighted weights =>
    (∀ entry ∈ givenWeights names weights, Scalar.isFinite entry.2 = true ∧ ¬entry.2 < 0) ∧
      ¬Scalar.sum ((givenWeights names weights).map Prod.snd) ≤ 0
  | .majority none _ => True
  | .majority (some threshold) exitThreshold =>
    (0 < threshold ∧ threshold ≤ 1) ∧
      Scalar.isWithin 0 threshold (exitThreshold.getD (threshold / ((2 : Nat) : α))) = true
  | .custom expression => ∃ vote, Vote.parse expression = .ok vote

theorem firstRepeated?_eq_none_iff {seen : List String} :
    firstRepeated? seen names = none ↔ names.Nodup ∧ ∀ name ∈ names, name ∉ seen := by
  induction names generalizing seen with
  | nil => simp [firstRepeated?]
  | cons name rest ih =>
      rw [firstRepeated?, List.nodup_cons, List.forall_mem_cons]
      by_cases hseen : name ∈ seen
      · rw [if_pos (by simpa using hseen)]
        exact iff_of_false (by simp) fun hnames => hnames.2.1 hseen
      · rw [if_neg (by simpa using hseen), ih]
        simp only [List.mem_cons, not_or]
        constructor
        · rintro ⟨hnodup, hrest⟩
          exact ⟨⟨fun hmem => (hrest name hmem).1 rfl, hnodup⟩, hseen,
            fun other hother => (hrest other hother).2⟩
        · rintro ⟨⟨hname, hnodup⟩, _, hrest⟩
          refine ⟨hnodup, fun other hother => ⟨?_, hrest other hother⟩⟩
          rintro rfl
          exact hname hother

/-! ### The parameters of a method -/

theorem checkThresholds_eq_ok_iff {threshold exit : α} :
    checkThresholds threshold exit = .ok () ↔
      (0 < threshold ∧ threshold ≤ 1) ∧ Scalar.isWithin 0 threshold exit = true := by
  rw [checkThresholds]
  by_cases hthreshold : 0 < threshold ∧ threshold ≤ 1
  · rw [if_neg (by simpa using hthreshold)]
    by_cases hexit : Scalar.isWithin 0 threshold exit = true
    · rw [if_neg (by simpa using hexit)]
      exact iff_of_true rfl ⟨hthreshold, hexit⟩
    · rw [if_pos (by simpa using hexit)]
      exact iff_of_false (by simp) fun hboth => hexit hboth.2
  · have hfault : (!(0 < threshold && threshold ≤ 1)) = true := by
      rw [Bool.not_eq_true', Bool.eq_false_iff]
      simpa using hthreshold
    rw [if_pos hfault]
    exact iff_of_false (by simp) fun hboth => hthreshold hboth.1

theorem normalizedWeights_eq_ok_iff {weights : Option (Weights α)} {shares : List (String × α)} :
    normalizedWeights names weights = .ok shares ↔
      ((∀ entry ∈ givenWeights names weights, Scalar.isFinite entry.2 = true ∧ ¬entry.2 < 0) ∧
        ¬Scalar.sum ((givenWeights names weights).map Prod.snd) ≤ 0) ∧
      (givenWeights names weights).map (fun entry =>
        (entry.1, entry.2 / Scalar.sum ((givenWeights names weights).map Prod.snd))) = shares := by
  simp only [normalizedWeights]
  cases hbad : (givenWeights names weights).find?
      fun entry => !Scalar.isFinite entry.2 || entry.2 < 0 with
  | some entry =>
      refine iff_of_false (by simp) ?_
      rintro ⟨⟨hgood, _⟩, _⟩
      have hentry := List.find?_some hbad
      obtain ⟨hfinite, hnonneg⟩ := hgood entry (List.mem_of_find?_eq_some hbad)
      simp [hfinite, hnonneg] at hentry
  | none =>
      have hgood : ∀ entry ∈ givenWeights names weights,
          Scalar.isFinite entry.2 = true ∧ ¬entry.2 < 0 := by
        intro entry hentry
        simpa using List.find?_eq_none.mp hbad entry hentry
      rw [and_iff_right hgood]
      by_cases htotal : Scalar.sum ((givenWeights names weights).map Prod.snd) ≤ 0
      · simp only [if_pos htotal]
        exact iff_of_false (by simp) fun hboth => hboth.1 htotal
      · simp only [if_neg htotal, Except.ok.injEq]
        exact (and_iff_right htotal).symm

theorem exists_normalizedWeights_iff {weights : Option (Weights α)} :
    (∃ shares, normalizedWeights names weights = .ok shares) ↔
      (∀ entry ∈ givenWeights names weights, Scalar.isFinite entry.2 = true ∧ ¬entry.2 < 0) ∧
        ¬Scalar.sum ((givenWeights names weights).map Prod.snd) ≤ 0 := by
  simp only [normalizedWeights_eq_ok_iff, exists_and_left, exists_eq', and_true]

/-! ### Combining -/

variable {method : Method α}

theorem exists_combineRows_iff {rows : Series (List Position)} :
    (∃ combination, combineRows names rows method = .ok combination) ↔ method.Usable names := by
  cases method with
  | weighted weights =>
      rw [Method.Usable, ← exists_normalizedWeights_iff]
      constructor
      · rintro ⟨combination, hcombine⟩
        obtain ⟨shares, hshares, _⟩ := bind_eq_ok_iff.mp hcombine
        exact ⟨shares, hshares⟩
      · rintro ⟨shares, hshares⟩
        exact ⟨_, bind_eq_ok_iff.mpr ⟨shares, hshares, rfl⟩⟩
  | majority threshold exitThreshold =>
      cases threshold with
      | none => exact iff_of_true ⟨_, rfl⟩ trivial
      | some threshold =>
          rw [Method.Usable, ← checkThresholds_eq_ok_iff]
          constructor
          · rintro ⟨combination, hcombine⟩
            obtain ⟨_, hcheck, _⟩ := bind_eq_ok_iff.mp hcombine
            exact hcheck
          · intro hcheck
            exact ⟨_, bind_eq_ok_iff.mpr ⟨(), hcheck, rfl⟩⟩
  | custom expression =>
      rw [Method.Usable]
      constructor
      · rintro ⟨combination, hcombine⟩
        obtain ⟨vote, hvote, _⟩ := bind_eq_ok_iff.mp hcombine
        exact ⟨vote, mapError_eq_ok_iff.mp hvote⟩
      · rintro ⟨vote, hvote⟩
        exact ⟨_, bind_eq_ok_iff.mpr ⟨vote, mapError_eq_ok_iff.mpr hvote, rfl⟩⟩

theorem dates_of_combineRows {rows : Series (List Position)} {combination : Combination α}
    (hcombine : combineRows names rows method = .ok combination) :
    combination.positions.dates = rows.dates := by
  cases method with
  | weighted weights =>
      obtain ⟨shares, _, hresult⟩ := bind_eq_ok_iff.mp hcombine
      cases hresult
      rw [Series.dates_map, Series.dates_map]
  | majority threshold exitThreshold =>
      cases threshold with
      | none =>
          cases hcombine
          exact Series.dates_map _ rows
      | some threshold =>
          obtain ⟨_, _, hresult⟩ := bind_eq_ok_iff.mp hcombine
          cases hresult
          exact Series.dates_scan _ _ rows
  | custom expression =>
      obtain ⟨vote, _, hresult⟩ := bind_eq_ok_iff.mp hcombine
      cases hresult
      rw [Series.dates_map, Series.dates_map]

variable {signals : List NamedSignal}

theorem combine_eq_of_nodup (hsome : signals ≠ []) (hnames : (signals.map NamedSignal.name).Nodup) :
    combine signals method = combineRows (signals.map NamedSignal.name) (rows signals) method := by
  have hrepeated : firstRepeated? [] (signals.map NamedSignal.name) = none :=
    firstRepeated?_eq_none_iff.mpr ⟨hnames, by simp⟩
  rw [combine, if_neg (by simpa using hsome)]
  simp only [hrepeated]

theorem exists_combine_eq_of_repeated (method : Method α)
    (hrepeated : ¬(signals.map NamedSignal.name).Nodup) :
    ∃ name, combine signals method = .error (.validation (.duplicateStrategy name)) := by
  have hsome : signals ≠ [] := by
    rintro rfl
    exact hrepeated (by simp)
  have hfound : firstRepeated? [] (signals.map NamedSignal.name) ≠ none := fun hnone =>
    hrepeated (firstRepeated?_eq_none_iff.mp hnone).1
  obtain ⟨name, hname⟩ := Option.ne_none_iff_exists'.mp hfound
  refine ⟨name, ?_⟩
  rw [combine, if_neg (by simpa using hsome)]
  simp only [hname]

theorem of_combine {combination : Combination α} (hcombine : combine signals method = .ok combination) :
    signals ≠ [] ∧ (signals.map NamedSignal.name).Nodup := by
  unfold combine at hcombine
  split_ifs at hcombine with hempty
  cases hrepeated : firstRepeated? [] (signals.map NamedSignal.name) with
  | some name =>
      simp only [hrepeated] at hcombine
      cases hcombine
  | none => exact ⟨by simpa using hempty, (firstRepeated?_eq_none_iff.mp hrepeated).1⟩

theorem combine_eq_ok_iff {combination : Combination α} :
    combine signals method = .ok combination ↔
      (signals ≠ [] ∧ (signals.map NamedSignal.name).Nodup) ∧
        combineRows (signals.map NamedSignal.name) (rows signals) method = .ok combination := by
  constructor
  · intro hcombine
    obtain ⟨hsome, hnames⟩ := of_combine hcombine
    rw [combine_eq_of_nodup hsome hnames] at hcombine
    exact ⟨⟨hsome, hnames⟩, hcombine⟩
  · rintro ⟨⟨hsome, hnames⟩, hrows⟩
    rwa [combine_eq_of_nodup hsome hnames]

theorem exists_combine_iff :
    (∃ combination, combine signals method = .ok combination) ↔
      signals ≠ [] ∧ (signals.map NamedSignal.name).Nodup ∧
        method.Usable (signals.map NamedSignal.name) := by
  simp only [combine_eq_ok_iff, exists_and_left, exists_combineRows_iff, and_assoc]

theorem dates_of_combine {dates : List Date} {combination : Combination α}
    (haxis : ∀ signal ∈ signals, signal.positions.dates = dates)
    (hcombine : combine signals method = .ok combination) : combination.positions.dates = dates := by
  obtain ⟨⟨hsome, _⟩, hrows⟩ := combine_eq_ok_iff.mp hcombine
  rw [dates_of_combineRows hrows, rows, Series.dates_onAxis]
  refine Series.dates_commonAxis (by simpa using hsome) fun series hseries => ?_
  obtain ⟨signal, hsignal, rfl⟩ := List.mem_map.mp hseries
  exact haxis signal hsignal

end Backtest.Aggregate
