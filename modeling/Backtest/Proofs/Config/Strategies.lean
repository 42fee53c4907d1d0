import Backtest.Config.Plan
import Backtest.Proofs.Error.Stages
import Backtest.Proofs.Strategy.Readiness
import Backtest.Proofs.Text.Trimming

/-!
# Strategies in a configuration

A section is read twice, once to check it and once to build its strategy. The two readings agree: a
section passes its check exactly when a strategy can be built from it that gives the formulas its kind
needs. The check asks for texts that are not empty once they are trimmed, the strategy for texts that
are not blank.
-/

namespace Backtest.Config.Document

variable {document : Document} {group key name : String}

theorem nonBlank?_nonBlank? (document : Document) (group key : String) :
    Text.nonBlank? (document.nonBlank? group key) = document.nonBlank? group key := by
  cases htext : document.nonBlank? group key with
  | none => rfl
  | some text =>
      rw [nonBlank?, Option.filter_eq_some_iff, Option.map_eq_some_iff] at htext
      obtain ⟨⟨written, _, rfl⟩, hsome⟩ := htext
      simp [Text.nonBlank?, Text.isBlankText_trim (of_decide_eq_true hsome)]

/-- The strategy of a section, whatever its check says, once its kind is known. -/
def strategyOfKind (document : Document) (group name : String) (kind : Strategy.Kind) : Strategy where
  name := name
  kind := kind
  long := document.nonBlank? group "long"
  cash := document.nonBlank? group "cash"
  short := document.nonBlank? group "short"
  expression := document.nonBlank? group "expression"

theorem strategy_eq_ok_iff {strategy : Strategy} :
    document.strategy group name = .ok strategy ↔
      ∃ kind, document.kind group = .ok kind ∧ strategy = document.strategyOfKind group name kind := by
  rw [Document.strategy, bind_eq_ok_iff]
  simp only [pure_eq_ok_iff, strategyOfKind, eq_comm (a := strategy)]

theorem complete_strategyOfKind_iff {kind : Strategy.Kind} :
    (document.strategyOfKind group name kind).Complete ↔
      ((document.nonBlank? group "long").isSome = true ∨
        kind = .longCash ∧ (document.nonBlank? group "expression").isSome = true) ∧
        (kind = .longShort → (document.nonBlank? group "short").isSome = true) := by
  rw [Strategy.complete_iff]
  simp only [strategyOfKind, nonBlank?_nonBlank?]

theorem checkStrategy_eq_ok_iff (name : String) :
    document.checkStrategy group = .ok () ↔
      ∃ strategy, document.strategy group name = .ok strategy ∧ strategy.Complete := by
  have hbuilt : (∃ strategy, document.strategy group name = .ok strategy ∧ strategy.Complete) ↔
      ∃ kind, document.kind group = .ok kind ∧ (document.strategyOfKind group name kind).Complete := by
    simp only [strategy_eq_ok_iff]
    constructor
    · rintro ⟨_, ⟨kind, hkind, rfl⟩, hcomplete⟩
      exact ⟨kind, hkind, hcomplete⟩
    · rintro ⟨kind, hkind, hcomplete⟩
      exact ⟨_, ⟨kind, hkind, rfl⟩, hcomplete⟩
  rw [hbuilt]
  simp only [checkStrategy, bind_eq_ok_iff, refuse_bind_eq_ok_iff, refuse_eq_ok_iff, only_if_eq_ok_iff,
    complete_strategyOfKind_iff]
  refine exists_congr fun kind => and_congr_right fun _ => ?_
  -- What remains is a question of which keys are there.
  cases document.nonBlank? group "long" <;> cases document.nonBlank? group "expression" <;>
    cases document.nonBlank? group "short" <;> cases kind <;> simp [pure_eq_ok_iff]

/-- The strategies of an aggregation are named as they are listed, and each is what its section says. -/
theorem named_of_mapM_strategy {members : List String} {strategies : List Strategy}
    (hstrategies : (members.mapM fun name => document.strategy (memberGroup name) name) = .ok strategies) :
    strategies.map Strategy.name = members ∧
      ∀ strategy ∈ strategies, document.strategy (memberGroup strategy.name) strategy.name = .ok strategy := by
  rw [mapM_eq_ok_iff] at hstrategies
  induction hstrategies with
  | nil => exact ⟨rfl, by simp⟩
  | @cons name strategy rest others hfirst _ ih =>
      obtain ⟨kind, _, rfl⟩ := strategy_eq_ok_iff.mp hfirst
      exact ⟨congrArg (name :: ·) ih.1, List.forall_mem_cons.mpr ⟨hfirst, ih.2⟩⟩

theorem mapM_strategy_of_check {members : List String}
    (hcheck : ∀ name ∈ members, document.checkStrategy (memberGroup name) = .ok ()) :
    ∃ strategies, (members.mapM fun name => document.strategy (memberGroup name) name) =
        .ok strategies ∧
      strategies.map Strategy.name = members ∧ ∀ strategy ∈ strategies, strategy.Complete := by
  have hread : ∃ strategies, (members.mapM fun name => document.strategy (memberGroup name) name) =
      .ok strategies := exists_mapM_eq_ok_iff.mpr fun name hname =>
    ((checkStrategy_eq_ok_iff name).mp (hcheck name hname)).imp fun _ hstrategy => hstrategy.1
  obtain ⟨strategies, hstrategies⟩ := hread
  obtain ⟨hnames, heach⟩ := named_of_mapM_strategy hstrategies
  refine ⟨strategies, hstrategies, hnames, fun strategy hstrategy => ?_⟩
  have hmember : strategy.name ∈ members := hnames ▸ List.mem_map_of_mem hstrategy
  obtain ⟨other, hother, hcomplete⟩ := (checkStrategy_eq_ok_iff strategy.name).mp (hcheck _ hmember)
  cases (heach strategy hstrategy).symm.trans hother
  exact hcomplete

end Backtest.Config.Document
