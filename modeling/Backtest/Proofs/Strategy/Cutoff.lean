import Backtest.Proofs.Error.Stages
import Backtest.Proofs.Lookup
import Backtest.Proofs.Series.Cutoff
import Backtest.Strategy

/-!
# Strategies up to a date

A strategy that has positions under some conditions has the same positions, up to a date, under what is
known of the conditions on that date. Formulas are read over the names of the conditions, and the names
are known from the start.
-/

namespace Backtest

namespace NameTable

variable {β γ : Type}

def map (f : β → γ) (table : NameTable β) : NameTable γ where
  entries := table.entries.map fun entry => (entry.1, f entry.2)
  ascending := by simpa [List.map_map, Function.comp_def] using table.ascending

theorem names_map (f : β → γ) (table : NameTable β) : (table.map f).names = table.names := by
  simp [map, names, Function.comp_def]

theorem get?_map (f : β → γ) (table : NameTable β) (name : String) :
    (table.map f).get? name = (table.get? name).map f :=
  lookup_map f name table.entries

end NameTable

variable {cutoff : Date} {conditions : ConditionSet}

/-- What is known of the conditions on a date. -/
def ConditionSet.upTo (cutoff : Date) (conditions : ConditionSet) : ConditionSet :=
  conditions.map (Series.upTo cutoff)

namespace Condition

theorem combine_upTo {connective : Bool → Bool → Bool} {left right series : Series Bool}
    (hcombine : combine connective left right = .ok series) :
    combine connective (left.upTo cutoff) (right.upTo cutoff) = .ok (series.upTo cutoff) :=
  Series.zipWith_eq_ok_upTo hcombine

theorem eval_upTo {condition : Condition} {series : Series Bool}
    (heval : eval conditions condition = .ok series) :
    eval (conditions.upTo cutoff) condition = .ok (series.upTo cutoff) := by
  induction condition generalizing series with
  | atom name =>
      rw [eval] at heval ⊢
      rw [ConditionSet.upTo, NameTable.get?_map]
      cases hname : conditions.get? name with
      | none =>
          rw [hname] at heval
          cases heval
      | some found =>
          rw [hname] at heval
          cases heval
          rfl
  | and left right ihleft ihright =>
      rw [eval, bind_eq_ok_iff] at heval
      obtain ⟨first, hleft, hrest⟩ := heval
      obtain ⟨second, hright, hcombine⟩ := bind_eq_ok_iff.mp hrest
      rw [eval, ihleft hleft, ihright hright]
      exact combine_upTo hcombine
  | or left right ihleft ihright =>
      rw [eval, bind_eq_ok_iff] at heval
      obtain ⟨first, hleft, hrest⟩ := heval
      obtain ⟨second, hright, hcombine⟩ := bind_eq_ok_iff.mp hrest
      rw [eval, ihleft hleft, ihright hright]
      exact combine_upTo hcombine

theorem evalText_upTo {text : String} {series : Series Bool}
    (heval : evalText conditions text = .ok series) :
    evalText (conditions.upTo cutoff) text = .ok (series.upTo cutoff) := by
  obtain ⟨condition, hparse, heval⟩ := bind_eq_ok_iff.mp heval
  have hnames : parseOver (conditions.upTo cutoff) text = .ok condition := by
    rw [parseOver, ConditionSet.upTo, NameTable.names_map]
    exact hparse
  rw [evalText, hnames]
  exact eval_upTo heval

end Condition

namespace Strategy

theorem longUnless_upTo {long cash : Series Bool} {positions : Series Position}
    (hpositions : longUnless long cash = .ok positions) :
    longUnless (long.upTo cutoff) (cash.upTo cutoff) = .ok (positions.upTo cutoff) :=
  Series.zipWith_eq_ok_upTo hpositions

theorem longOrShort_upTo {long short : Series Bool} {positions : Series Position}
    (hpositions : longOrShort long short = .ok positions) :
    longOrShort (long.upTo cutoff) (short.upTo cutoff) = .ok (positions.upTo cutoff) :=
  Series.zipWith_eq_ok_upTo hpositions

theorem longWhere_upTo (long : Series Bool) :
    longWhere (long.upTo cutoff) = (longWhere long).upTo cutoff :=
  (Series.map_upTo _ long).symm

/-! ### The stages of a strategy -/

/-- The formula that decides entries. -/
def entryText? (strategy : Strategy) : Option String :=
  Text.nonBlank? strategy.long <|> Text.nonBlank? strategy.expression

theorem entryText?_of_none {strategy : Strategy} (hlong : Text.nonBlank? strategy.long = none) :
    strategy.entryText? = Text.nonBlank? strategy.expression := by
  rw [entryText?, hlong]
  rfl

/-- The positions once the entries are known. -/
def positionsFrom (strategy : Strategy) (conditions : ConditionSet) (entry : Series Bool) :
    Except Error (Series Position) :=
  match strategy.kind, Text.nonBlank? strategy.long with
  | .longCash, none => .ok (longWhere entry)
  | .longCash, some _ =>
    match Text.nonBlank? strategy.cash with
    | none => .ok (longWhere entry)
    | some cashText => Condition.evalText conditions cashText >>= longUnless entry
  | .longShort, none => .error (.validation (.needsSide strategy.name "long"))
  | .longShort, some _ =>
    match Text.nonBlank? strategy.short with
    | none => .error (.validation (.needsSide strategy.name "short"))
    | some shortText => Condition.evalText conditions shortText >>= longOrShort entry

theorem positions_eq (strategy : Strategy) (conditions : ConditionSet) :
    strategy.positions conditions =
      match strategy.entryText? with
      | none => .error (.validation (.needsLong strategy.name))
      | some text => Condition.evalText conditions text >>= strategy.positionsFrom conditions :=
  rfl

theorem positionsFrom_upTo {strategy : Strategy} {entry : Series Bool} {positions : Series Position}
    (hpositions : strategy.positionsFrom conditions entry = .ok positions) :
    strategy.positionsFrom (conditions.upTo cutoff) (entry.upTo cutoff) =
      .ok (positions.upTo cutoff) := by
  unfold positionsFrom at hpositions ⊢
  cases hkind : strategy.kind with
  | longCash =>
      cases hlong : Text.nonBlank? strategy.long with
      | none =>
          simp only [hkind, hlong] at hpositions ⊢
          cases hpositions
          rw [longWhere_upTo]
      | some _ =>
          cases hcash : Text.nonBlank? strategy.cash with
          | none =>
              simp only [hkind, hlong, hcash] at hpositions ⊢
              cases hpositions
              rw [longWhere_upTo]
          | some text =>
              simp only [hkind, hlong, hcash] at hpositions ⊢
              obtain ⟨cash, heval, hrest⟩ := bind_eq_ok_iff.mp hpositions
              exact bind_eq_ok_iff.mpr ⟨_, Condition.evalText_upTo heval, longUnless_upTo hrest⟩
  | longShort =>
      cases hlong : Text.nonBlank? strategy.long with
      | none =>
          simp only [hkind, hlong] at hpositions
          cases hpositions
      | some _ =>
          cases hshort : Text.nonBlank? strategy.short with
          | none =>
              simp only [hkind, hlong, hshort] at hpositions
              cases hpositions
          | some text =>
              simp only [hkind, hlong, hshort] at hpositions ⊢
              obtain ⟨short, heval, hrest⟩ := bind_eq_ok_iff.mp hpositions
              exact bind_eq_ok_iff.mpr ⟨_, Condition.evalText_upTo heval, longOrShort_upTo hrest⟩

theorem positions_upTo {strategy : Strategy} {positions : Series Position}
    (hpositions : strategy.positions conditions = .ok positions) :
    strategy.positions (conditions.upTo cutoff) = .ok (positions.upTo cutoff) := by
  rw [positions_eq] at hpositions ⊢
  cases hentry : strategy.entryText? with
  | none =>
      rw [hentry] at hpositions
      cases hpositions
  | some text =>
      rw [hentry] at hpositions
      obtain ⟨entry, heval, hrest⟩ := bind_eq_ok_iff.mp hpositions
      exact bind_eq_ok_iff.mpr ⟨_, Condition.evalText_upTo heval, positionsFrom_upTo hrest⟩

end Strategy

end Backtest
