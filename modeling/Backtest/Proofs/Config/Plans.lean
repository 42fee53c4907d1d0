import Backtest.Proofs.Config.Settings
import Backtest.Proofs.Config.Setup

/-!
# Plans that were checked

A plan is built from the keys that were checked before. A section gives its strategy, and a method what it
is checked for, with one exception. A majority has two thresholds, and the exit threshold is checked only
where a threshold is given, but it is read in either case. So an exit threshold without a threshold need
not be a number to pass the checks, and is the only thing for which a checked plan is refused.
-/

namespace Backtest.Config.Document

section Numbers

variable {α : Type} [Scalar α] {document : Document} {group key : String}

theorem number?_of_blank (hblank : document.nonBlank? group key = none) :
    document.number? (α := α) group key = .ok none := by
  rw [number?, hblank]

theorem number?_of_not_number {text : String} (htext : document.nonBlank? group key = some text)
    (hnumber : (Scalar.ofText? text : Option α).filter Scalar.isFinite = none) :
    document.number? (α := α) group key = .error (.badValue group key (.notANumber text)) := by
  simp only [number?, htext, hnumber]

theorem exists_number?_or (α : Type) [Scalar α] (document : Document) (group key : String) :
    (∃ found, document.number? (α := α) group key = .ok found) ∨
      ∃ text, document.nonBlank? group key = some text ∧
        (Scalar.ofText? text : Option α).filter Scalar.isFinite = none := by
  cases htext : document.nonBlank? group key with
  | none => exact .inl ⟨none, number?_of_blank htext⟩
  | some text =>
      cases hnumber : (Scalar.ofText? text : Option α).filter Scalar.isFinite with
      | none => exact .inr ⟨text, rfl, hnumber⟩
      | some value => exact .inl ⟨some value, by simp only [number?, htext, hnumber]⟩

end Numbers

variable {α : Type} [Scalar α] {document : Document} {members : List String} {name text : String}

theorem isAggregate_of_nonBlank? (hname : document.nonBlank? aggregateGroup "method" = some name) :
    document.isAggregate = true := by
  rw [nonBlank?, Option.filter_eq_some_iff, Option.map_eq_some_iff] at hname
  obtain ⟨⟨written, hwritten, _⟩, _⟩ := hname
  rw [isAggregate, hwritten, Option.isSome_some]

/-- A majority without a threshold has a text that is no number for its exit threshold. -/
structure UncheckedExit (α : Type) [Scalar α] (document : Document) (text : String) : Prop where
  majority : ∃ name, document.nonBlank? aggregateGroup "method" = some name ∧
    Text.lower name = "majority"
  no_threshold : document.nonBlank? aggregateGroup "threshold" = none
  exit : document.nonBlank? aggregateGroup "exit_threshold" = some text
  not_number : (Scalar.ofText? text : Option α).filter Scalar.isFinite = none

/-! ### Methods -/

theorem method_of_uncheckedExit (hexit : document.UncheckedExit α text) :
    document.method (α := α) =
      .error (.badValue aggregateGroup "exit_threshold" (.notANumber text)) := by
  obtain ⟨name, hname, hlower⟩ := hexit.majority
  simp only [method, hname, hlower, number?_of_blank hexit.no_threshold,
    number?_of_not_number hexit.exit hexit.not_number]
  rfl

theorem exists_weights?_of_checkWeights (hcheck : document.checkWeights α members = .ok ()) :
    ∃ weights : Option (Weights α), document.weights? = .ok weights := by
  unfold checkWeights at hcheck
  unfold weights?
  cases htext : document.nonBlank? aggregateGroup "weights" with
  | none => exact ⟨none, rfl⟩
  | some text =>
      simp only [htext] at hcheck
      obtain ⟨weights, hweights, _⟩ := bind_eq_ok_iff.mp hcheck
      rw [mapError_eq_ok_iff] at hweights
      refine ⟨some weights, ?_⟩
      simp only [hweights]
      rfl

theorem exists_exit_of_checkThresholds (hcheck : document.checkThresholds α = .ok ()) :
    ∃ threshold : Option α, document.number? aggregateGroup "threshold" = .ok threshold ∧
      (threshold ≠ none →
        ∃ exit : Option α, document.number? aggregateGroup "exit_threshold" = .ok exit) := by
  obtain ⟨threshold, hthreshold, hrest⟩ := bind_eq_ok_iff.mp hcheck
  refine ⟨threshold, hthreshold, fun hsome => ?_⟩
  cases threshold with
  | none => exact absurd rfl hsome
  | some threshold =>
      simp only [refuse_bind_eq_ok_iff] at hrest
      obtain ⟨exit, hexit, _⟩ := bind_eq_ok_iff.mp hrest.2
      exact ⟨exit, hexit⟩

theorem exists_method_of_checkMethod (hname : document.nonBlank? aggregateGroup "method" = some name)
    (hcheck : document.checkMethod α name members = .ok ())
    (hexit : ∀ text, ¬document.UncheckedExit α text) :
    ∃ method : Aggregate.Method α, document.method = .ok method := by
  unfold checkMethod at hcheck
  split at hcheck
  · next hlower =>
      obtain ⟨weights, hweights⟩ := exists_weights?_of_checkWeights hcheck
      simp only [Document.method, hname, hlower]
      exact ⟨_, bind_eq_ok_iff.mpr ⟨weights, hweights, rfl⟩⟩
  · next hlower =>
      obtain ⟨threshold, hthreshold, hchecked⟩ := exists_exit_of_checkThresholds hcheck
      simp only [Document.method, hname, hlower]
      -- The exit threshold can be read, because it was checked or because it is not the exception.
      have hread : ∃ exit : Option α, document.number? aggregateGroup "exit_threshold" = .ok exit := by
        rcases exists_number?_or α document aggregateGroup "exit_threshold" with
          hread | ⟨text, htext, hnumber⟩
        · exact hread
        · refine hchecked fun hnone => hexit text ⟨⟨name, hname, hlower⟩, ?_, htext, hnumber⟩
          subst hnone
          rcases of_number? hthreshold with ⟨hblank, _⟩ | ⟨_, _, _, _, _, hsome⟩
          · exact hblank
          · cases hsome
      obtain ⟨exit, hexit⟩ := hread
      exact ⟨_, bind_eq_ok_iff.mpr ⟨threshold, hthreshold, bind_eq_ok_iff.mpr ⟨exit, hexit, rfl⟩⟩⟩
  · next hlower =>
      simp only [Document.method, hname, hlower]
      cases hexpression : document.nonBlank? aggregateGroup "expression" with
      | none => simp [hexpression] at hcheck
      | some expression => exact ⟨.custom expression, rfl⟩
  · cases hcheck

/-! ### Plans -/

/-- **Plans that were checked.** When the strategies of a configuration pass their checks, its plan can be
built, unless it is a majority without a threshold whose exit threshold is no number. Then the plan is
refused for that exit threshold. -/
theorem plan_of_checkStrategies (hcheck : document.checkStrategies α = .ok ()) :
    ((∀ text, ¬document.UncheckedExit α text) → ∃ plan : Plan α, document.plan = .ok plan) ∧
      ∀ text, document.UncheckedExit α text →
        document.plan (α := α) =
          .error (.badValue aggregateGroup "exit_threshold" (.notANumber text)) := by
  unfold checkStrategies at hcheck
  unfold plan
  by_cases haggregate : document.isAggregate = true
  · rw [if_pos haggregate] at hcheck ⊢
    obtain ⟨name, hname, _, hmembers, hmethod⟩ := checkAggregate_eq_ok hcheck
    obtain ⟨strategies, hstrategies, _⟩ := mapM_strategy_of_check hmembers
    rw [hstrategies]
    constructor
    · intro hexit
      obtain ⟨method, hbuilt⟩ := exists_method_of_checkMethod hname hmethod hexit
      exact ⟨_, bind_eq_ok_iff.mpr ⟨strategies, rfl, bind_eq_ok_iff.mpr ⟨method, hbuilt, rfl⟩⟩⟩
    · intro text hexit
      rw [ok_bind, method_of_uncheckedExit hexit, error_bind]
  · rw [if_neg haggregate] at hcheck ⊢
    constructor
    · intro _
      obtain ⟨strategy, hstrategy, _⟩ := (checkStrategy_eq_ok_iff _).mp hcheck
      exact ⟨_, bind_eq_ok_iff.mpr ⟨strategy, hstrategy, rfl⟩⟩
    · intro text hexit
      obtain ⟨name, hname, _⟩ := hexit.majority
      exact absurd (isAggregate_of_nonBlank? hname) haggregate

/-! ### Majorities with and without a threshold -/

namespace Sample

/-- A majority of one strategy with the given lines for its thresholds. -/
def majorityText (thresholds : String) : String :=
  "[aggregate]\nmethod = Majority\nstrategies = a\n" ++ thresholds ++ "\n[strategy.a]\nlong = up\n"

def refusal? (document : Document) : Option Error :=
  match document.plan (α := Binary64) with
  | .ok _ => none
  | .error error => some error

theorem plan_of_refusal? {document : Document} {error : Error} (hrefusal : refusal? document = some error) :
    document.plan (α := Binary64) = .error error := by
  unfold refusal? at hrefusal
  split at hrefusal
  · cases hrefusal
  · next other hplan =>
      rw [hplan, Option.some.inj hrefusal]

end Sample

theorem plan_of_checkStrategies_sample :
    ∃ document, Document.ofText (Sample.majorityText "threshold = 0.5\nexit_threshold = 1e-1") =
        .ok document ∧
      document.checkStrategies Binary64 = .ok () ∧
      (∀ text, ¬document.UncheckedExit Binary64 text) ∧
      ∃ plan : Plan Binary64, document.plan = .ok plan := by
  have hsucceeds : succeedsWith (fun document => decide (document.checkStrategies Binary64 = .ok () ∧
        document.nonBlank? aggregateGroup "threshold" = some "0.5"))
      (Document.ofText (Sample.majorityText "threshold = 0.5\nexit_threshold = 1e-1")) = true := by
    decide +kernel
  obtain ⟨document, hread, htest⟩ := exists_of_succeedsWith hsucceeds
  obtain ⟨hcheck, hthreshold⟩ := of_decide_eq_true htest
  have hexit : ∀ text, ¬document.UncheckedExit Binary64 text := by
    intro text hexit
    rw [hexit.no_threshold] at hthreshold
    cases hthreshold
  exact ⟨document, hread, hcheck, hexit, (plan_of_checkStrategies hcheck).1 hexit⟩

/-- An exit threshold that is no number passes every check of a majority without a threshold, and the
plan is refused for it. -/
theorem exists_check_and_plan_refused :
    ∃ document, Document.ofText (Sample.majorityText "exit_threshold = lots") = .ok document ∧
      document.checkStrategies Binary64 = .ok () ∧
      document.plan (α := Binary64) =
        .error (.badValue aggregateGroup "exit_threshold" (.notANumber "lots")) := by
  have hsucceeds : succeedsWith (fun document => decide (document.checkStrategies Binary64 = .ok () ∧
        Sample.refusal? document =
          some (.badValue aggregateGroup "exit_threshold" (.notANumber "lots"))))
      (Document.ofText (Sample.majorityText "exit_threshold = lots")) = true := by
    decide +kernel
  obtain ⟨document, hread, htest⟩ := exists_of_succeedsWith hsucceeds
  obtain ⟨hcheck, hrefusal⟩ := of_decide_eq_true htest
  exact ⟨document, hread, hcheck, Sample.plan_of_refusal? hrefusal⟩

end Backtest.Config.Document
