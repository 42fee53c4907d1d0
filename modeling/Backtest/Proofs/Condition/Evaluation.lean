import Backtest.Condition.Evaluation
import Backtest.Proofs.Condition.Printing
import Backtest.Proofs.Lookup

/-!
# Evaluation of conditions

A formula has truth values on some dates exactly when every name in it has values on these dates and no
others, since both connectives join their sides on one axis. Conditions that all have values on the same
dates never disagree about their axis. Over them a formula has truth values as soon as it can be read:
reading it makes sure that its names are known.
-/

namespace Backtest

variable {conditions : ConditionSet} {dates : List Date}

/-- Every condition has values on these dates and no others. -/
def ConditionSet.Aligned (dates : List Date) (conditions : ConditionSet) : Prop :=
  ∀ name series, conditions.get? name = some series → series.dates = dates

/-- Every one of the names has a series, on these dates and no others. -/
def ConditionSet.Cover (conditions : ConditionSet) (dates : List Date) (names : List String) : Prop :=
  ∀ name ∈ names, ∃ series, conditions.get? name = some series ∧ series.dates = dates

theorem ConditionSet.Aligned.cover (haligned : conditions.Aligned dates) {names : List String}
    (hnames : ∀ name ∈ names, name ∈ conditions.names) : conditions.Cover dates names := by
  intro name hname
  obtain ⟨series, hseries⟩ := NameTable.mem_names_iff.mp (hnames name hname)
  exact ⟨series, hseries, haligned name series hseries⟩

theorem ConditionSet.cover_append {first second : List String} :
    conditions.Cover dates (first ++ second) ↔
      conditions.Cover dates first ∧ conditions.Cover dates second :=
  List.forall_mem_append

namespace Condition

/-! ### Connectives -/

section Connective

variable {connective : Bool → Bool → Bool} {first second : Except Error (Series Bool)}

theorem combine_of_dates {left right : Series Bool} (haxis : left.dates = right.dates) :
    combine connective left right = .ok (left.zipWith connective right) :=
  if_pos (decide_eq_true haxis)

theorem combine_of_dates_ne {left right : Series Bool} (haxis : left.dates ≠ right.dates) :
    combine connective left right = .error (.schema .misalignedConditions) :=
  if_neg (by simpa [Series.sameAxis] using haxis)

/-- The sides of a connective are evaluated in order and joined on one axis. -/
theorem bind_combine_eq_ok_iff {series : Series Bool} :
    (do
      let left ← first
      let right ← second
      combine connective left right) = .ok series ↔
      ∃ left right, first = .ok left ∧ second = .ok right ∧ left.dates = right.dates ∧
        left.zipWith connective right = series := by
  simp only [bind_eq_ok_iff]
  constructor
  · rintro ⟨left, hfirst, right, hsecond, hcombine⟩
    by_cases haxis : left.dates = right.dates
    · rw [combine_of_dates haxis] at hcombine
      exact ⟨left, right, hfirst, hsecond, haxis, Except.ok.inj hcombine⟩
    · rw [combine_of_dates_ne haxis] at hcombine
      cases hcombine
  · rintro ⟨left, right, hfirst, hsecond, haxis, rfl⟩
    exact ⟨left, hfirst, right, hsecond, combine_of_dates haxis⟩

theorem bind_combine_eq_error_iff {fault : Error} :
    (do
      let left ← first
      let right ← second
      combine connective left right) = .error fault ↔
      first = .error fault ∨ (∃ left, first = .ok left ∧ second = .error fault) ∨
        ∃ left right, first = .ok left ∧ second = .ok right ∧ left.dates ≠ right.dates ∧
          fault = .schema .misalignedConditions := by
  cases first with
  | error refusal => simp [error_bind]
  | ok left =>
      cases second with
      | error refusal => simp [ok_bind, error_bind]
      | ok right =>
          rw [ok_bind, ok_bind]
          by_cases haxis : left.dates = right.dates
          · simp [combine_of_dates haxis, haxis]
          · simp [combine_of_dates_ne haxis, haxis, eq_comm]

/-- A connective has a value on some dates when both of its sides have. -/
theorem exists_bind_combine_iff :
    (∃ series, (do
      let left ← first
      let right ← second
      combine connective left right) = .ok series ∧ series.dates = dates) ↔
      (∃ left, first = .ok left ∧ left.dates = dates) ∧
        ∃ right, second = .ok right ∧ right.dates = dates := by
  simp only [bind_combine_eq_ok_iff]
  constructor
  · rintro ⟨_, ⟨left, right, hfirst, hsecond, haxis, rfl⟩, hdates⟩
    rw [Series.dates_zipWith connective haxis] at hdates
    exact ⟨⟨left, hfirst, hdates⟩, right, hsecond, haxis.symm.trans hdates⟩
  · rintro ⟨⟨left, hfirst, hleft⟩, right, hsecond, hright⟩
    have haxis : left.dates = right.dates := hleft.trans hright.symm
    exact ⟨_, ⟨left, right, hfirst, hsecond, haxis, rfl⟩,
      (Series.dates_zipWith connective haxis).trans hleft⟩

end Connective

theorem eval_atom_eq_ok_iff {name : String} {series : Series Bool} :
    eval conditions (.atom name) = .ok series ↔ conditions.get? name = some series := by
  rw [eval]
  cases conditions.get? name with
  | none => simp
  | some found => simp

/-- A formula has a value on some dates when every name in it has. -/
theorem exists_eval_iff {condition : Condition} :
    (∃ series, eval conditions condition = .ok series ∧ series.dates = dates) ↔
      conditions.Cover dates condition.atoms := by
  induction condition with
  | atom name => simp [eval_atom_eq_ok_iff, ConditionSet.Cover, Formula.atoms]
  | and left right ihleft ihright =>
      rw [Formula.atoms, ConditionSet.cover_append, ← ihleft, ← ihright]
      exact exists_bind_combine_iff
  | or left right ihleft ihright =>
      rw [Formula.atoms, ConditionSet.cover_append, ← ihleft, ← ihright]
      exact exists_bind_combine_iff

theorem evalText_name {name : String} {series : Series Bool} (hname : isName name = true)
    (hseries : conditions.get? name = some series) : evalText conditions name = .ok series := by
  have havailable : name ∈ conditions.names := NameTable.mem_names_iff.mpr ⟨series, hseries⟩
  rw [evalText, parseOver, parse_name hname havailable]
  exact eval_atom_eq_ok_iff.mpr hseries

theorem exists_evalText_iff (haligned : conditions.Aligned dates) {text : String} :
    (∃ series, evalText conditions text = .ok series) ↔
      ∃ condition, parse conditions.names text = .ok condition := by
  simp only [evalText, parseOver, bind_eq_ok_iff, mapError_eq_ok_iff]
  constructor
  · rintro ⟨series, condition, hparse, _⟩
    exact ⟨condition, hparse⟩
  · rintro ⟨condition, hparse⟩
    have hcover := haligned.cover fun name => mem_of_mem_atoms hparse
    obtain ⟨series, heval, _⟩ := exists_eval_iff.mpr hcover
    exact ⟨series, condition, hparse, heval⟩

theorem dates_of_evalText (haligned : conditions.Aligned dates) {text : String} {series : Series Bool}
    (heval : evalText conditions text = .ok series) : series.dates = dates := by
  simp only [evalText, parseOver, bind_eq_ok_iff, mapError_eq_ok_iff] at heval
  obtain ⟨condition, hparse, heval⟩ := heval
  have hcover := haligned.cover fun name => mem_of_mem_atoms hparse
  obtain ⟨found, hfound, hdates⟩ := exists_eval_iff.mpr hcover
  rw [heval] at hfound
  cases hfound
  exact hdates

end Condition

end Backtest
