import Backtest.Command.FormulaCheck
import Backtest.Config.Setup
import Backtest.Proofs.Config.Methods
import Backtest.Proofs.Config.Strategies
import Backtest.Proofs.Plan.Readiness

/-!
# Setups that run

A configuration that can be set up has terms that a run accepts and a plan that lacks nothing but two
things that its checks do not look at. The one are the formulas, which cannot be read before the
conditions of the market are known. The other are the names of the strategies: a list that names a
strategy twice passes all checks, and its signals are refused when they are combined.
-/

namespace Backtest

open Config

variable {α : Type} [Scalar α]

namespace Strategy

variable {strategy : Strategy} {text : String}

theorem eq_some_of_nonBlank? {field : Option String} (hfield : Text.nonBlank? field = some text) :
    field = some text := by
  rw [Text.nonBlank?, Option.filter_eq_some_iff] at hfield
  exact hfield.1

theorem field_of_used (hused : text ∈ strategy.usedFormulas) :
    strategy.long = some text ∨ strategy.cash = some text ∨ strategy.short = some text ∨
      strategy.expression = some text := by
  unfold usedFormulas at hused
  split at hused
  · rw [Option.mem_toList] at hused
    exact .inr (.inr (.inr (eq_some_of_nonBlank? hused)))
  · next hlong =>
      rw [List.mem_cons, Option.mem_toList] at hused
      rcases hused with rfl | hcash
      · exact .inl (eq_some_of_nonBlank? hlong)
      · exact .inr (.inl (eq_some_of_nonBlank? hcash))
  · rw [List.mem_append, Option.mem_toList, Option.mem_toList] at hused
    rcases hused with hlong | hshort
    · exact .inl (eq_some_of_nonBlank? hlong)
    · exact .inr (.inr (.inl (eq_some_of_nonBlank? hshort)))

/-- A formula that is used is among those that are given. -/
theorem exists_field_of_used (hused : text ∈ strategy.usedFormulas) :
    ∃ field, (field, text) ∈ strategy.expressions := by
  unfold expressions
  rcases field_of_used hused with hfield | hfield | hfield | hfield
  · exact ⟨"long", by simp [hfield]⟩
  · exact ⟨"cash", by simp [hfield]⟩
  · exact ⟨"short", by simp [hfield]⟩
  · exact ⟨"expression", by simp [hfield]⟩

theorem Complete.exists_expression (hcomplete : strategy.Complete) :
    ∃ entry, entry ∈ strategy.expressions := by
  unfold expressions
  rcases hcomplete.entry with hlong | ⟨_, hexpression⟩
  · obtain ⟨text, htext⟩ := Option.isSome_iff_exists.mp hlong
    exact ⟨("long", text), by simp [eq_some_of_nonBlank? htext]⟩
  · obtain ⟨text, htext⟩ := Option.isSome_iff_exists.mp hexpression
    exact ⟨("expression", text), by simp [eq_some_of_nonBlank? htext]⟩

theorem ready_of_expressions {available : List String} (hcomplete : strategy.Complete)
    (hformulas : ∀ entry ∈ strategy.expressions,
      ∃ condition, Condition.parse available entry.2 = .ok condition) : strategy.Ready available := by
  refine ⟨hcomplete, fun text hused => ?_⟩
  obtain ⟨field, hfield⟩ := exists_field_of_used hused
  exact hformulas _ hfield

end Strategy

namespace Plan

variable {plan : Plan α} {available : List String}

/-- The method is a vote that can be read, or no vote. -/
def VoteReadable (method : Aggregate.Method α) : Prop :=
  ∀ expression, method = .custom expression → ∃ vote, Vote.parse expression = .ok vote

/-- What the checks of a configuration make sure of. -/
def Checked : Plan α → Prop
  | .single strategy => strategy.Complete
  | .aggregate strategies method =>
    (strategies ≠ [] ∧ ∀ strategy ∈ strategies, strategy.Complete) ∧
      (VoteReadable method → method.Usable (strategies.map Strategy.name))

/-- The formulas of the plan, also those that its strategies make no use of, and its vote can be read. -/
structure Readable (available : List String) (plan : Plan α) : Prop where
  formulas : ∀ strategy ∈ plan.strategies, ∀ entry ∈ strategy.expressions,
    ∃ condition, Condition.parse available entry.2 = .ok condition
  vote : ∀ strategies method, plan = .aggregate strategies method → VoteReadable method

theorem Checked.strategies_ready (hchecked : plan.Checked) (hreadable : plan.Readable available) :
    ∀ strategy ∈ plan.strategies, strategy.Ready available := by
  intro strategy hstrategy
  refine Strategy.ready_of_expressions ?_ (hreadable.formulas strategy hstrategy)
  cases plan with
  | single only =>
      rw [List.mem_singleton.mp hstrategy]
      exact hchecked
  | aggregate members method => exact hchecked.1.2 strategy hstrategy

theorem Checked.ready_iff (hchecked : plan.Checked) (hreadable : plan.Readable available) :
    plan.Ready available ↔ (plan.strategies.map Strategy.name).Nodup := by
  have hready := hchecked.strategies_ready hreadable
  cases plan with
  | single strategy => exact iff_of_true (hready strategy (List.mem_singleton.mpr rfl)) (by simp [strategies])
  | aggregate members method =>
      obtain ⟨⟨hsome, _⟩, husable⟩ := hchecked
      constructor
      · intro hplan
        exact hplan.1.2
      · intro hnames
        exact ⟨⟨hsome, hnames⟩, hready, husable (hreadable.vote members method rfl)⟩

theorem Checked.exists_expression (hchecked : plan.Checked) :
    ∃ strategy ∈ plan.strategies, ∃ entry, entry ∈ strategy.expressions := by
  cases plan with
  | single strategy =>
      obtain ⟨entry, hentry⟩ := Strategy.Complete.exists_expression hchecked
      exact ⟨strategy, by simp [strategies], entry, hentry⟩
  | aggregate members method =>
      obtain ⟨strategy, hstrategy⟩ := List.exists_mem_of_ne_nil members hchecked.1.1
      obtain ⟨entry, hentry⟩ := (hchecked.1.2 strategy hstrategy).exists_expression
      exact ⟨strategy, hstrategy, entry, hentry⟩

end Plan

namespace Config.Document

variable {document : Document} {setup : Setup α}

theorem setup_eq_ok (hsetup : document.setup = .ok setup) :
    document.checkStrategies α = .ok () ∧ document.plan = .ok setup.plan ∧ setup.terms.check = .ok () := by
  obtain ⟨_, _, hchecked⟩ := bind_eq_ok_iff.mp hsetup
  obtain ⟨_, hstrategies, hrest⟩ := bind_eq_ok_iff.mp hchecked
  obtain ⟨plan, hplan, hbuilt⟩ := bind_eq_ok_iff.mp hrest
  obtain ⟨⟨terms, risk⟩, _, hlast⟩ := bind_eq_ok_iff.mp hbuilt
  obtain ⟨_, hterms, hresult⟩ := bind_eq_ok_iff.mp hlast
  cases hresult
  exact ⟨hstrategies, hplan, hterms⟩

/-- What the checks of an aggregation ask for. -/
theorem checkAggregate_eq_ok (hcheck : document.checkAggregate α = .ok ()) :
    ∃ name, document.nonBlank? aggregateGroup "method" = some name ∧ document.members ≠ [] ∧
      (∀ member ∈ document.members, document.checkStrategy (memberGroup member) = .ok ()) ∧
      document.checkMethod α name document.members = .ok () := by
  unfold checkAggregate at hcheck
  cases hname : document.nonBlank? aggregateGroup "method" with
  | none =>
      simp only [hname] at hcheck
      cases hcheck
  | some name =>
      simp only [hname, refuse_bind_eq_ok_iff] at hcheck
      obtain ⟨hsome, hrest⟩ := hcheck
      obtain ⟨_, hstrategies, hmethod⟩ := bind_eq_ok_iff.mp hrest
      exact ⟨name, rfl, by simpa using hsome, forM_eq_ok_iff.mp hstrategies, hmethod⟩

theorem checked_of_checkStrategies [LawfulScalar α] {plan : Plan α}
    (hcheck : document.checkStrategies α = .ok ()) (hplan : document.plan = .ok plan) :
    plan.Checked := by
  unfold checkStrategies at hcheck
  unfold Document.plan at hplan
  split_ifs at hcheck hplan with haggregate
  · obtain ⟨name, hname, hsome, hmembers, hcheckMethod⟩ := checkAggregate_eq_ok hcheck
    obtain ⟨built, hbuilt, hnames, hcomplete⟩ := mapM_strategy_of_check hmembers
    obtain ⟨strategies, hstrategies, hrest⟩ := bind_eq_ok_iff.mp hplan
    obtain ⟨method, hmethod, hresult⟩ := bind_eq_ok_iff.mp hrest
    rw [hbuilt] at hstrategies
    cases hstrategies
    cases hresult
    refine ⟨⟨?_, hcomplete⟩, fun hvote => ?_⟩
    · rintro rfl
      exact hsome hnames.symm
    · rw [hnames]
      exact usable_of_checkMethod hsome hname hcheckMethod hmethod hvote
  · obtain ⟨strategy, hstrategy, hresult⟩ := bind_eq_ok_iff.mp hplan
    obtain ⟨found, hfound, hcomplete⟩ := (checkStrategy_eq_ok_iff _).mp hcheck
    rw [hstrategy] at hfound
    cases hfound
    cases hresult
    exact hcomplete

end Config.Document

end Backtest
