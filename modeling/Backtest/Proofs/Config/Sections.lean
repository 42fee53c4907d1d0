import Backtest.Config.Reader
import Backtest.Proofs.Config.Setup
import Backtest.Proofs.Strategy.Meaning

/-!
# What a section leaves out

The check of a section and the strategy that is built from it ask for the same formulas, each in its own
order. The strategy looks for a formula that decides entries, reads it, and only then asks whether both
sides are given; the check has no formulas to read. So where the formulas can be read, a section fails its
check exactly when its strategy is refused, and both say that the same side is missing.
-/

namespace Backtest

open Config

variable {conditions : ConditionSet} {dates : List Date}

/-- The side of a strategy that the fault says has no formula. -/
def ValidationFault.side? : ValidationFault → Option String
  | needsLong _ => some "long"
  | needsSide _ side => some side
  | _ => none

namespace Strategy

variable {strategy : Strategy} {side : String}

/-- The side that has no formula although strategies of the kind need one, the long side first. -/
def missingSide? (strategy : Strategy) : Option String :=
  match strategy.kind, Text.nonBlank? strategy.long with
  | .longCash, some _ => none
  | .longCash, none => if (Text.nonBlank? strategy.expression).isSome then none else some "long"
  | .longShort, none => some "long"
  | .longShort, some _ => if (Text.nonBlank? strategy.short).isSome then none else some "short"

theorem missingSide?_eq_none_iff : strategy.missingSide? = none ↔ strategy.Complete := by
  rw [complete_iff, missingSide?]
  cases strategy.kind <;> cases Text.nonBlank? strategy.long <;> simp [← Option.isSome_iff_ne_none]

theorem exists_field_of_entryText? {text : String} (htext : strategy.entryText? = some text) :
    ∃ field, (field, text) ∈ strategy.expressions := by
  unfold expressions
  rw [entryText?, Option.orElse_eq_some] at htext
  rcases htext with hlong | ⟨_, hexpression⟩
  · exact ⟨"long", by simp [eq_some_of_nonBlank? hlong]⟩
  · exact ⟨"expression", by simp [eq_some_of_nonBlank? hexpression]⟩

theorem positions_of_entry {text : String} {entry : Series Bool}
    (htext : strategy.entryText? = some text) (heval : Condition.evalText conditions text = .ok entry) :
    strategy.positions conditions = strategy.positionsFrom conditions entry := by
  rw [positions_eq, htext]
  simp only [heval, ok_bind]

/-- A strategy that lacks a side is refused for it, if the formula that decides entries has a value. -/
theorem positions_of_missingSide? (hmissing : strategy.missingSide? = some side)
    (hentry : ∀ text, strategy.entryText? = some text →
      ∃ entry, Condition.evalText conditions text = .ok entry) :
    ∃ fault, strategy.positions conditions = .error (.validation fault) ∧ fault.side? = some side := by
  cases htext : strategy.entryText? with
  | none =>
      refine ⟨.needsLong strategy.name, by rw [positions_eq, htext], ?_⟩
      rw [entryText?, Option.orElse_eq_none] at htext
      rw [← hmissing, missingSide?, htext.1, htext.2]
      cases strategy.kind <;> rfl
  | some text =>
      obtain ⟨entry, heval⟩ := hentry text htext
      refine ⟨.needsSide strategy.name side, ?_, rfl⟩
      rw [positions_of_entry htext heval]
      unfold positionsFrom
      unfold missingSide? at hmissing
      cases hkind : strategy.kind with
      | longCash =>
          cases hlong : Text.nonBlank? strategy.long with
          | none =>
              simp [hkind, hlong, ← entryText?_of_none hlong, htext] at hmissing
          | some long => simp [hkind, hlong] at hmissing
      | longShort =>
          cases hlong : Text.nonBlank? strategy.long with
          | none =>
              simp only [hkind, hlong] at hmissing
              cases hmissing
              rfl
          | some long =>
              simp only [hkind, hlong] at hmissing
              split_ifs at hmissing with hshort
              cases hmissing
              rw [Option.not_isSome_iff_eq_none.mp hshort]

end Strategy

namespace Config

/-- The keys of a section whose values are formulas. -/
def formulaKeys : List String := ["long", "cash", "short", "expression"]

namespace Document

variable {document : Document} {group : String} {kind : Strategy.Kind}

/-- The formulas that a section gives are formulas over the names. -/
def FormulasReadable (document : Document) (group : String) (available : List String) : Prop :=
  ∀ key ∈ formulaKeys, ∀ text, document.nonBlank? group key = some text →
    ∃ condition, Condition.parse available text = .ok condition

theorem checkStrategy_eq (hkind : document.kind group = .ok kind) (name : String) :
    document.checkStrategy group =
      match (document.strategyOfKind group name kind).missingSide? with
      | none => .ok ()
      | some side => .error (.missingKey group side) := by
  simp only [Strategy.missingSide?, strategyOfKind, nonBlank?_nonBlank?]
  cases hlong : document.nonBlank? group "long" with
  | none =>
      cases hexpression : document.nonBlank? group "expression" with
      | none => cases kind <;> simp [checkStrategy, hkind, hlong, hexpression] <;> rfl
      | some expression => cases kind <;> simp [checkStrategy, hkind, hlong, hexpression] <;> rfl
  | some long =>
      cases hshort : document.nonBlank? group "short" with
      | none => cases kind <;> simp [checkStrategy, hkind, hlong, hshort] <;> rfl
      | some short => cases kind <;> simp [checkStrategy, hkind, hlong, hshort]

theorem FormulasReadable.expressions {available : List String}
    (hformulas : document.FormulasReadable group available) (name : String) (kind : Strategy.Kind) :
    ∀ entry ∈ (document.strategyOfKind group name kind).expressions,
      ∃ condition, Condition.parse available entry.2 = .ok condition := by
  rintro ⟨field, text⟩ hentry
  suffices hkey : field ∈ formulaKeys ∧ document.nonBlank? group field = some text from
    hformulas field hkey.1 text hkey.2
  simp only [Strategy.expressions, strategyOfKind, List.mem_filterMap, List.mem_cons,
    List.not_mem_nil, or_false, Option.map_eq_some_iff, Prod.mk.injEq] at hentry
  rcases hentry with ⟨_, rfl | rfl | rfl | rfl, _, hvalue, rfl, rfl⟩ <;>
    exact ⟨by simp [formulaKeys], hvalue⟩

/-- **A section passes its check when its strategy lacks nothing.** If the type of a section and all its
formulas can be read, a strategy is built from it. The section passes its check exactly when this strategy
is not refused as incomplete, and then the strategy has positions. Otherwise the strategy is refused for
the side that the check names as the missing key. -/
theorem checkStrategy_agrees (haligned : conditions.Aligned dates)
    (hkind : document.kind group = .ok kind)
    (hformulas : document.FormulasReadable group conditions.names) (name : String) :
    ∃ strategy, document.strategy group name = .ok strategy ∧
      (document.checkStrategy group = .ok () ↔
        ∀ fault, strategy.positions conditions ≠ .error (.validation fault)) ∧
      (document.checkStrategy group = .ok () ↔
        ∃ positions, strategy.positions conditions = .ok positions) ∧
      ∀ fault, strategy.positions conditions = .error (.validation fault) →
        ∃ side, fault.side? = some side ∧
          document.checkStrategy group = .error (.missingKey group side) := by
  have hexpressions := hformulas.expressions name kind
  refine ⟨_, strategy_eq_ok_iff.mpr ⟨kind, hkind, rfl⟩, ?_⟩
  rw [checkStrategy_eq hkind name]
  cases hmissing : (document.strategyOfKind group name kind).missingSide? with
  | none =>
      obtain ⟨positions, hpositions⟩ := (Strategy.exists_positions_iff haligned).mpr
        (Strategy.ready_of_expressions (Strategy.missingSide?_eq_none_iff.mp hmissing) hexpressions)
      rw [hpositions]
      simp
  | some side =>
      have hentry : ∀ text, (document.strategyOfKind group name kind).entryText? = some text →
          ∃ entry, Condition.evalText conditions text = .ok entry := by
        intro text htext
        obtain ⟨field, hfield⟩ := Strategy.exists_field_of_entryText? htext
        exact (Condition.exists_evalText_iff haligned).mpr (hexpressions _ hfield)
      obtain ⟨fault, hpositions, hside⟩ := Strategy.positions_of_missingSide? hmissing hentry
      rw [hpositions]
      simp [hside]

namespace Sample

/-- It gives no short formula, and one that its strategy has no use for. -/
def oneSided : String := "[strategy]\ntype = long_short\nlong = up\nexpression = steep\n"

end Sample

theorem checkStrategy_agrees_sample :
    ∃ document, Document.ofText Sample.oneSided = .ok document ∧
      document.kind strategyGroup = .ok .longShort ∧
      document.FormulasReadable strategyGroup Strategy.Sample.rise.names ∧
      ∃ strategy, document.strategy strategyGroup "" = .ok strategy ∧
        ∃ fault, strategy.positions Strategy.Sample.rise = .error (.validation fault) ∧
          fault.side? = some "short" ∧
          document.checkStrategy strategyGroup = .error (.missingKey strategyGroup "short") := by
  have hsucceeds : succeedsWith (fun document => decide (
        document.kind strategyGroup = .ok .longShort ∧
        document.checkStrategy strategyGroup = .error (.missingKey strategyGroup "short") ∧
        ∀ key ∈ formulaKeys, ∀ text ∈ document.nonBlank? strategyGroup key, text ∈ ["up", "steep"]))
      (Document.ofText Sample.oneSided) = true := by
    decide +kernel
  obtain ⟨document, hread, htest⟩ := exists_of_succeedsWith hsucceeds
  obtain ⟨hkind, hcheck, hgiven⟩ := of_decide_eq_true htest
  have hformulas : document.FormulasReadable strategyGroup Strategy.Sample.rise.names := by
    intro key hkey text htext
    exact Strategy.Sample.parse_rise text (hgiven key hkey text htext)
  obtain ⟨strategy, hstrategy, hagrees, _, hside⟩ :=
    checkStrategy_agrees Strategy.Sample.rise_aligned hkind hformulas ""
  refine ⟨document, hread, hkind, hformulas, strategy, hstrategy, ?_⟩
  have hrefused : ¬∀ fault, strategy.positions Strategy.Sample.rise ≠ .error (.validation fault) := by
    rw [← hagrees, hcheck]
    nofun
  obtain ⟨fault, hfault⟩ := not_forall_not.mp hrefused
  obtain ⟨side, hmissing, hkey⟩ := hside fault hfault
  cases hcheck.symm.trans hkey
  exact ⟨fault, hfault, hmissing, hcheck⟩

end Document

end Config

end Backtest
