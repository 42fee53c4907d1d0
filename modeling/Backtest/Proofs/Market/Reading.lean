import Backtest.Market
import Backtest.Proofs.Condition.Evaluation
import Backtest.Proofs.Error.Stages
import Backtest.Proofs.Series.Lists

/-!
# Accepted market data

A table that is accepted has at least one row, and every condition that is read from it has a value on
the day of each row and on no other day. A condition is a series, so once there is one the days of the
bars ascend.
-/

namespace Backtest

namespace ConditionSet

variable {dates : List Date} {conditions : ConditionSet}

theorem Aligned.ascending (haligned : conditions.Aligned dates) {name : String}
    (hname : name ∈ conditions.names) : dates.Pairwise (· < ·) := by
  obtain ⟨series, hseries⟩ := NameTable.mem_names_iff.mp hname
  rw [← haligned name series hseries]
  exact series.ascending

theorem aligned_empty (dates : List Date) : Aligned dates .empty := by
  intro name series hseries
  cases hseries

theorem Aligned.insert (haligned : conditions.Aligned dates) {series : Series Bool}
    (hseries : series.dates = dates) (title : String) : Aligned dates (conditions.insert title series) := by
  intro name found hfound
  rw [NameTable.get?_insert] at hfound
  split_ifs at hfound
  · cases hfound
    exact hseries
  · exact haligned name found hfound

end ConditionSet

namespace Market

variable {α : Type} [Scalar α]

omit [Scalar α] in
/-- Every column that is added stands on the dates of the rows. -/
theorem addConditions_aligned {rows : List (Row α)} {columns : List (Nat × String)}
    {conditions result : ConditionSet} {index : Nat}
    (haligned : conditions.Aligned (rows.map Row.date))
    (hresult : addConditions rows conditions index columns = .ok result) :
    result.Aligned (rows.map Row.date) := by
  induction columns generalizing conditions index with
  | nil =>
      cases hresult
      exact haligned
  | cons column rest ih =>
      rw [addConditions] at hresult
      split at hresult
      · cases hresult
      · next series hseries =>
          exact ih (haligned.insert (Series.dates_of_ofLists hseries) _) hresult

theorem Row.sort_perm {α : Type} (rows : List (Row α)) : (sort rows).Perm rows :=
  List.mergeSort_perm rows _

theorem Row.sort_eq_nil_iff {α : Type} {rows : List (Row α)} : sort rows = [] ↔ rows = [] := by
  rw [← List.length_eq_zero_iff, (sort_perm rows).length_eq, List.length_eq_zero_iff]

/-- The market of a table is made of its sorted rows. -/
theorem ofTable_eq_ok_iff {symbol : String} {table : Csv.Table} {market : Market α} :
    ofTable symbol table = .ok market ↔
      ∃ columns rows, Columns.ofHeader table.header = .ok columns ∧
        Row.ofTable columns Row.firstNumber table.rows = .ok rows ∧ rows ≠ [] ∧
        market.bars = (Row.sort rows).map Row.bar ∧
        addConditions (Row.sort rows) .empty 0 columns.conditions = .ok market.conditions := by
  obtain ⟨bars, conditions⟩ := market
  simp only [ofTable, bind_eq_ok_iff, mapError_eq_ok_iff, refuse_bind_eq_ok_iff, pure_eq_ok_iff,
    List.isEmpty_iff, Market.mk.injEq]
  constructor
  · rintro ⟨columns, hcolumns, rows, hrows, hsome, _, hconditions, rfl, rfl⟩
    exact ⟨columns, rows, hcolumns, hrows, hsome, rfl, hconditions⟩
  · rintro ⟨columns, rows, hcolumns, hrows, hsome, rfl, hconditions⟩
    exact ⟨columns, hcolumns, rows, hrows, hsome, conditions, hconditions, rfl, rfl⟩

/-- What is known of a market whose data was accepted. -/
structure Accepted (market : Market α) : Prop where
  nonempty : market.bars ≠ []
  aligned : market.conditions.Aligned (market.bars.map Bar.date)

theorem ofTable_accepted {symbol : String} {table : Csv.Table} {market : Market α}
    (hmarket : ofTable symbol table = .ok market) : market.Accepted := by
  obtain ⟨columns, rows, _, _, hsome, hbars, hconditions⟩ := ofTable_eq_ok_iff.mp hmarket
  have hdates : (Row.sort rows).map Row.date = market.bars.map Bar.date := by
    rw [hbars, List.map_map]
    rfl
  refine ⟨?_, hdates ▸ addConditions_aligned (ConditionSet.aligned_empty _) hconditions⟩
  rw [hbars]
  exact fun hnil => hsome (Row.sort_eq_nil_iff.mp (List.map_eq_nil_iff.mp hnil))

theorem ofFile_accepted {symbol path : String} {contents : Except Storage.Fault Text.Bytes}
    {market : Market α} (hmarket : ofFile symbol path contents = .ok market) : market.Accepted := by
  unfold ofFile at hmarket
  split at hmarket
  · obtain ⟨table, _, htable⟩ := bind_eq_ok_iff.mp hmarket
    exact ofTable_accepted htable
  · cases hmarket
  · cases hmarket

end Market

end Backtest
