import Backtest.Config.Plan
import Backtest.Proofs.Aggregate.Acceptance
import Backtest.Proofs.Aggregate.Weights
import Backtest.Proofs.Scalar.Lawful

/-!
# Methods in a configuration

A method that passes its check can be built, and its weights or thresholds can be used. The check and
the aggregation look at different numbers: the check adds up the weights that are given, in the order of
their names, and the aggregation those of the listed strategies; a threshold without an exit threshold
is checked alone, and the aggregation keeps half of it. What a vote says is not checked here.
-/

namespace Backtest

variable {α : Type} [Scalar α]

/-! ### Weights -/

namespace Weights

/-- Every weight is finite and not negative. -/
def Good (weights : Weights α) : Prop :=
  ∀ name weight, weights.get? name = some weight → Scalar.isFinite weight = true ∧ ¬weight < 0

theorem ofText_good {text : String} {weights : Weights α} (hweights : ofText text = .ok weights) :
    weights.Good := by
  obtain ⟨entries, hsays, _, hperm⟩ := ofText_eq_ok_iff.mp hweights
  intro name weight hweight
  have hentry : (name, weight) ∈ entries := hperm.mem_iff.mp (NameTable.get?_eq_some_iff.mp hweight)
  obtain ⟨item, _, _, _, _, _, _, _, hgood⟩ := exists_rel_of_mem hsays.flip hentry
  exact hgood

end Weights

namespace Aggregate

variable [LawfulScalar α] {names : List String}

theorem usable_of_no_weights (hsome : names ≠ []) : (Method.weighted (α := α) none).Usable names := by
  have hone : ∀ entry ∈ givenWeights (α := α) names none, entry.2 = 1 := by
    intro entry hentry
    obtain ⟨name, _, rfl⟩ := List.mem_map.mp hentry
    rfl
  have hgood : ∀ entry ∈ givenWeights (α := α) names none,
      Scalar.isFinite entry.2 = true ∧ ¬entry.2 < 0 := by
    intro entry hentry
    rw [hone entry hentry]
    exact ⟨LawfulScalar.isFinite_one, LawfulScalar.one_not_neg⟩
  refine ⟨hgood, ?_⟩
  rw [LawfulScalar.sum_le_zero_iff _ (List.forall_mem_map.mpr hgood)]
  obtain ⟨name, hname⟩ := List.exists_mem_of_ne_nil names hsome
  intro hzero
  refine LawfulScalar.one_pos (hzero 1 ?_)
  exact List.mem_map.mpr ⟨(name, 1), List.mem_map.mpr ⟨name, hname, rfl⟩, rfl⟩

/-- A positive weight of a listed name is among the weights that are used. -/
theorem usable_of_weights {weights : Weights α} (hgood : weights.Good)
    (hlisted : ∀ name ∈ weights.names, name ∈ names) (htotal : ¬Scalar.sum weights.values ≤ 0) :
    (Method.weighted (some weights)).Usable names := by
  have hused : ∀ entry ∈ givenWeights names (some weights),
      Scalar.isFinite entry.2 = true ∧ ¬entry.2 < 0 := by
    intro entry hentry
    obtain ⟨name, _, rfl⟩ := List.mem_map.mp hentry
    cases hweight : weights.get? name with
    | none => exact ⟨LawfulScalar.isFinite_zero, LawfulScalar.zero_not_neg⟩
    | some weight => exact hgood name weight hweight
  refine ⟨hused, fun hzero => htotal ?_⟩
  have hvalues : ∀ value ∈ weights.values, Scalar.isFinite value = true ∧ ¬value < 0 := by
    intro value hvalue
    obtain ⟨name, hname⟩ := NameTable.mem_values_iff.mp hvalue
    exact hgood name value hname
  rw [LawfulScalar.sum_le_zero_iff _ (List.forall_mem_map.mpr hused)] at hzero
  rw [LawfulScalar.sum_le_zero_iff _ hvalues]
  intro value hvalue
  obtain ⟨name, hname⟩ := NameTable.mem_values_iff.mp hvalue
  have hmem : name ∈ names := hlisted name (NameTable.mem_names_iff.mpr ⟨value, hname⟩)
  refine hzero value (List.mem_map.mpr ⟨(name, value), List.mem_map.mpr ⟨name, hmem, ?_⟩, rfl⟩)
  rw [hname]
  rfl

end Aggregate

/-! ### The two readings of a section -/

namespace Config.Document

open Aggregate

variable [LawfulScalar α] {document : Document} {members : List String}

theorem usable_of_checkWeights (hsome : members ≠ [])
    (hcheck : document.checkWeights α members = .ok ()) {weights : Option (Weights α)}
    (hweights : document.weights? = .ok weights) : (Method.weighted weights).Usable members := by
  unfold checkWeights at hcheck
  unfold weights? at hweights
  cases htext : document.nonBlank? aggregateGroup "weights" with
  | none =>
      simp only [htext] at hweights
      cases hweights
      exact usable_of_no_weights hsome
  | some text =>
      simp only [htext] at hcheck hweights
      obtain ⟨checked, hchecked, hrest⟩ := bind_eq_ok_iff.mp hcheck
      rw [mapError_eq_ok_iff] at hchecked
      rw [hchecked] at hweights
      cases hweights
      cases hunlisted : checked.names.find? fun name => !members.contains name with
      | some name =>
          simp only [hunlisted] at hrest
          cases hrest
      | none =>
          simp only [hunlisted, refuse_eq_ok_iff] at hrest
          refine usable_of_weights (Weights.ofText_good hchecked) ?_ hrest.1
          simpa using hunlisted

theorem usable_of_checkThresholds (hcheck : document.checkThresholds α = .ok ())
    {threshold exitThreshold : Option α}
    (hthreshold : document.number? aggregateGroup "threshold" = .ok threshold)
    (hexit : document.number? aggregateGroup "exit_threshold" = .ok exitThreshold) :
    (Method.majority threshold exitThreshold).Usable members := by
  cases threshold with
  | none => trivial
  | some threshold =>
      unfold checkThresholds at hcheck
      rw [hthreshold, hexit] at hcheck
      obtain ⟨_, hfound, hrest⟩ := bind_eq_ok_iff.mp hcheck
      cases hfound
      simp only [refuse_bind_eq_ok_iff] at hrest
      obtain ⟨hshare, hrest⟩ := hrest
      have hwithin : 0 < threshold ∧ threshold ≤ 1 := by simpa using hshare
      refine ⟨hwithin, ?_⟩
      obtain ⟨_, hfound, hlast⟩ := bind_eq_ok_iff.mp hrest
      cases hfound
      cases exitThreshold with
      | none => exact LawfulScalar.half_isWithin threshold hwithin.1 hwithin.2
      | some exit =>
          simp only [refuse_eq_ok_iff] at hlast
          simpa using hlast.1

/-- A method that is checked and built can be used, if it is a vote that can be read or no vote. -/
theorem usable_of_checkMethod (hsome : members ≠ []) {name : String} {method : Method α}
    (hname : document.nonBlank? aggregateGroup "method" = some name)
    (hcheck : document.checkMethod α name members = .ok ()) (hmethod : document.method = .ok method)
    (hvote : ∀ expression, method = .custom expression → ∃ vote, Vote.parse expression = .ok vote) :
    method.Usable members := by
  unfold checkMethod at hcheck
  unfold Document.method at hmethod
  simp only [hname] at hmethod
  split at hmethod
  · next hlower =>
      simp only [hlower] at hcheck
      obtain ⟨weights, hweights, hresult⟩ := bind_eq_ok_iff.mp hmethod
      cases hresult
      exact usable_of_checkWeights hsome hcheck hweights
  · next hlower =>
      simp only [hlower] at hcheck
      obtain ⟨threshold, hthreshold, hrest⟩ := bind_eq_ok_iff.mp hmethod
      obtain ⟨exitThreshold, hexit, hresult⟩ := bind_eq_ok_iff.mp hrest
      cases hresult
      exact usable_of_checkThresholds hcheck hthreshold hexit
  · split at hmethod
    · cases hmethod
      exact hvote _ rfl
    · cases hmethod
  · cases hmethod

end Config.Document

end Backtest
