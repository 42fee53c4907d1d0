import Mathlib.Data.List.Nodup
import Backtest.Proofs.Calendar.Order
import Backtest.Proofs.Market.Reading
import Backtest.Scalar.Binary64

/-!
# The dates of market data

The rows of a table are sorted by their dates, so the dates of the bars ascend. That no two of them are
the same is asked for by nothing but the series of the conditions, which are made one for each condition
column. A table with such a column is refused when a date comes twice. A table without one is accepted
whatever dates come twice in it.
-/

namespace Backtest

namespace Market

variable {α : Type}

/-! ### Sorted rows -/

namespace Row

theorem pairwise_dates_sort (rows : List (Row α)) : ((sort rows).map date).Pairwise (· ≤ ·) := by
  have htrans (first second third : Row α) (h : decide (first.date ≤ second.date) = true)
      (h' : decide (second.date ≤ third.date) = true) : decide (first.date ≤ third.date) = true :=
    decide_eq_true ((of_decide_eq_true h).trans (of_decide_eq_true h'))
  have htotal (first second : Row α) :
      (decide (first.date ≤ second.date) || decide (second.date ≤ first.date)) = true := by
    simpa using le_total first.date second.date
  have hsorted := List.pairwise_mergeSort htrans htotal rows
  rw [List.pairwise_map]
  exact hsorted.imp of_decide_eq_true

/-- Sorted dates ascend strictly when no date comes twice. -/
theorem dates_sort_ascending_iff {rows : List (Row α)} :
    ((sort rows).map date).Pairwise (· < ·) ↔ (rows.map date).Nodup := by
  rw [← ((sort_perm rows).map date).nodup_iff]
  constructor
  · intro hascending
    exact hascending.imp fun hlt => hlt.ne
  · intro hdistinct
    exact ((pairwise_dates_sort rows).and hdistinct).imp fun hboth => lt_of_le_of_ne hboth.1 hboth.2

end Row

/-! ### Conditions -/

theorem exists_addConditions_iff {rows : List (Row α)} {conditions : ConditionSet} {index : Nat}
    {columns : List (Nat × String)} :
    (∃ result, addConditions rows conditions index columns = .ok result) ↔
      columns = [] ∨ (rows.map Row.date).Pairwise (· < ·) := by
  induction columns generalizing conditions index with
  | nil => exact iff_of_true ⟨conditions, rfl⟩ (.inl rfl)
  | cons column rest ih =>
      have hlists : (∃ series, Series.ofLists (rows.map Row.date)
          (rows.map fun row => row.flags.getD index false) = .ok series) ↔
          (rows.map Row.date).Pairwise (· < ·) := by
        rw [Series.exists_ofLists_iff, List.length_map, List.length_map, and_iff_right rfl]
      rw [addConditions, ← hlists]
      cases hseries : Series.ofLists (rows.map Row.date)
          (rows.map fun row => row.flags.getD index false) with
      | error fault => exact iff_of_false (by simp [invalid]) (by simp)
      | ok series => exact iff_of_true (ih.mpr (.inr (hlists.mp ⟨series, hseries⟩))) (by simp)

/-- The conditions that are added are those of the columns. -/
theorem mem_names_addConditions {rows : List (Row α)} {conditions result : ConditionSet} {index : Nat}
    {columns : List (Nat × String)} (hresult : addConditions rows conditions index columns = .ok result)
    {name : String} : name ∈ result.names ↔ name ∈ conditions.names ∨ name ∈ columns.map Prod.snd := by
  induction columns generalizing conditions index with
  | nil =>
      cases hresult
      simp
  | cons column rest ih =>
      rw [addConditions] at hresult
      split at hresult
      · cases hresult
      · next series hseries =>
          rw [ih hresult, NameTable.mem_names_insert, List.map_cons, List.mem_cons, or_assoc,
            or_left_comm]

variable [Scalar α]

/-! ### Tables -/

/-- The bytes are those of a table with the given columns and rows. -/
def Holds (bytes : Text.Bytes) (columns : Columns) (rows : List (Row α)) : Prop :=
  ∃ table, Csv.Table.ofBytes bytes = .ok table ∧ Columns.ofHeader table.header = .ok columns ∧
    Row.ofTable columns Row.firstNumber table.rows = .ok rows

variable {symbol path : String} {bytes : Text.Bytes} {columns : Columns} {rows : List (Row α)}
  {market : Market α}

theorem ofFile_eq_ok_iff :
    ofFile symbol path (.ok bytes) = .ok market ↔
      ∃ columns rows, Holds bytes columns rows ∧ rows ≠ [] ∧
        market.bars = (Row.sort rows).map Row.bar ∧
        addConditions (Row.sort rows) .empty 0 columns.conditions = .ok market.conditions := by
  rw [ofFile, ofBytes, bind_eq_ok_iff]
  simp only [mapError_eq_ok_iff, ofTable_eq_ok_iff]
  constructor
  · rintro ⟨table, htable, columns, rows, hcolumns, hrows, hmarket⟩
    exact ⟨columns, rows, ⟨table, htable, hcolumns, hrows⟩, hmarket⟩
  · rintro ⟨columns, rows, ⟨table, htable, hcolumns, hrows⟩, hmarket⟩
    exact ⟨table, htable, columns, rows, hcolumns, hrows, hmarket⟩

/-- A text is that of one table only. -/
theorem Holds.unique {columns' : Columns} {rows' : List (Row α)} (hholds : Holds bytes columns rows)
    (hholds' : Holds bytes columns' rows') : columns = columns' ∧ rows = rows' := by
  obtain ⟨table, htable, hcolumns, hrows⟩ := hholds
  obtain ⟨table', htable', hcolumns', hrows'⟩ := hholds'
  cases htable.symm.trans htable'
  cases hcolumns.symm.trans hcolumns'
  cases hrows.symm.trans hrows'
  exact ⟨rfl, rfl⟩

theorem Holds.ofFile_eq_ok_iff (hholds : Holds bytes columns rows) :
    ofFile symbol path (.ok bytes) = .ok market ↔
      rows ≠ [] ∧ market.bars = (Row.sort rows).map Row.bar ∧
        addConditions (Row.sort rows) .empty 0 columns.conditions = .ok market.conditions := by
  rw [Market.ofFile_eq_ok_iff]
  constructor
  · rintro ⟨columns', rows', hholds', hmarket⟩
    obtain ⟨rfl, rfl⟩ := hholds.unique hholds'
    exact hmarket
  · exact fun hmarket => ⟨columns, rows, hholds, hmarket⟩

/-- A table whose rows can all be read is accepted, unless it has a condition column and a date comes
twice. -/
theorem Holds.exists_ofFile_iff (hholds : Holds bytes columns rows) (hsome : rows ≠ []) :
    (∃ market : Market α, ofFile symbol path (.ok bytes) = .ok market) ↔
      columns.conditions = [] ∨ (rows.map Row.date).Nodup := by
  simp only [hholds.ofFile_eq_ok_iff, ← Row.dates_sort_ascending_iff]
  rw [← exists_addConditions_iff]
  constructor
  · rintro ⟨market, _, _, hconditions⟩
    exact ⟨market.conditions, hconditions⟩
  · rintro ⟨conditions, hconditions⟩
    exact ⟨⟨(Row.sort rows).map Row.bar, conditions⟩, hsome, rfl, hconditions⟩

theorem pairwise_dates_of_ofFile (hmarket : ofFile symbol path (.ok bytes) = .ok market) :
    (market.bars.map Bar.date).Pairwise (· ≤ ·) := by
  obtain ⟨columns, rows, _, _, hbars, _⟩ := ofFile_eq_ok_iff.mp hmarket
  rw [hbars, List.map_map]
  exact Row.pairwise_dates_sort rows

/-- **The dates of market data.** A market that is accepted has bars in the order of their dates, and all
its conditions have a value on exactly these dates. The dates are distinct when there is a condition. A
table with rows that can be read is refused for a date that comes twice when it has a condition column,
and for nothing else; without such a column it is accepted. -/
theorem dates_of_ofFile :
    (∀ market : Market α, ofFile symbol path (.ok bytes) = .ok market →
      market.bars ≠ [] ∧ (market.bars.map Bar.date).Pairwise (· ≤ ·) ∧
        market.conditions.Aligned (market.bars.map Bar.date) ∧
        (market.conditions.names ≠ [] → (market.bars.map Bar.date).Pairwise (· < ·))) ∧
      ∀ columns, ∀ rows : List (Row α), Holds bytes columns rows → rows ≠ [] →
        ((∃ market : Market α, ofFile symbol path (.ok bytes) = .ok market) ↔
          columns.conditions = [] ∨ (rows.map Row.date).Nodup) := by
  constructor
  · intro market hmarket
    obtain ⟨hsome, haligned⟩ := ofFile_accepted hmarket
    refine ⟨hsome, pairwise_dates_of_ofFile hmarket, haligned, fun hconditions => ?_⟩
    obtain ⟨name, hname⟩ := List.exists_mem_of_ne_nil _ hconditions
    exact haligned.ascending hname
  · intro columns rows hholds hrows
    exact hholds.exists_ofFile_iff hrows

/-! ### Two rows of a date -/

namespace Sample

def header : String := "date,open,high,low,close,volume"

def trendTable : String := header ++ ",up\n2024-01-16,3,4,2,3,7,no\n2024-01-15,1,2,1,2,5,yes\n"

/-- A table without condition columns, with two rows of one date. -/
def repeatedTable : String := header ++ "\n2024-01-15,1,1,1,1,1\n2024-01-15,2,2,2,2,2\n"

def read (text : String) : Except Error (Market Binary64) :=
  ofFile "SPX" "data/SPX.csv" (.ok (Text.encode text))

/-- The text is that of a table, and its columns and rows pass a test. -/
def passes (test : Columns → List (Row Binary64) → Bool) (text : String) : Bool :=
  succeedsWith (fun table =>
      succeedsWith (fun columns =>
          succeedsWith (test columns) (Row.ofTable columns Row.firstNumber table.rows))
        (Columns.ofHeader table.header))
    (Csv.Table.ofBytes (Text.encode text))

theorem exists_of_passes {test : Columns → List (Row Binary64) → Bool} {text : String}
    (hpasses : passes test text = true) :
    ∃ columns, ∃ rows : List (Row Binary64), Holds (Text.encode text) columns rows ∧
      test columns rows = true := by
  obtain ⟨table, htable, hheader⟩ := exists_of_succeedsWith hpasses
  obtain ⟨columns, hcolumns, hbody⟩ := exists_of_succeedsWith hheader
  obtain ⟨rows, hrows, htest⟩ := exists_of_succeedsWith hbody
  exact ⟨columns, rows, ⟨table, htable, hcolumns, hrows⟩, htest⟩

end Sample

theorem dates_of_ofFile_sample :
    ∃ market, Sample.read Sample.trendTable = .ok market ∧ market.conditions.names ≠ [] ∧
      (market.bars.map Bar.date).Pairwise (· < ·) := by
  have hpasses : Sample.passes (fun columns rows => decide (columns.conditions.map Prod.snd = ["up"] ∧
      rows.length = 2 ∧ (rows.map Row.date).Nodup)) Sample.trendTable = true := by
    decide +kernel
  obtain ⟨columns, rows, hholds, htest⟩ := Sample.exists_of_passes hpasses
  obtain ⟨htitles, hlength, hdistinct⟩ := of_decide_eq_true htest
  have hsome : rows ≠ [] := List.ne_nil_of_length_eq_add_one hlength
  obtain ⟨hall, haccepted⟩ :=
    @dates_of_ofFile Binary64 _ "SPX" "data/SPX.csv" (Text.encode Sample.trendTable)
  obtain ⟨market, hmarket⟩ := (haccepted columns rows hholds hsome).mpr (.inr hdistinct)
  obtain ⟨_, _, hconditions⟩ := hholds.ofFile_eq_ok_iff.mp hmarket
  have hname : "up" ∈ market.conditions.names :=
    (mem_names_addConditions hconditions).mpr (.inr (by simp [htitles]))
  have hnames : market.conditions.names ≠ [] := List.ne_nil_of_mem hname
  exact ⟨market, hmarket, hnames, (hall market hmarket).2.2.2 hnames⟩

/-- A table without condition columns is accepted with a date that comes twice. -/
theorem exists_accepted_with_repeated_date :
    ∃ market, Sample.read Sample.repeatedTable = .ok market ∧
      ¬(market.bars.map Bar.date).Pairwise (· < ·) := by
  have hpasses : Sample.passes (fun columns rows => decide (columns.conditions = [] ∧
      rows.length = 2 ∧ ¬(rows.map Row.date).Nodup)) Sample.repeatedTable = true := by
    decide +kernel
  obtain ⟨columns, rows, hholds, htest⟩ := Sample.exists_of_passes hpasses
  obtain ⟨hnone, hlength, hrepeated⟩ := of_decide_eq_true htest
  have hsome : rows ≠ [] := List.ne_nil_of_length_eq_add_one hlength
  obtain ⟨market, hmarket⟩ := (hholds.exists_ofFile_iff hsome).mpr (.inl hnone)
  obtain ⟨_, hbars, _⟩ := hholds.ofFile_eq_ok_iff.mp hmarket
  refine ⟨market, hmarket, fun hascending => hrepeated (Row.dates_sort_ascending_iff.mp ?_)⟩
  rwa [hbars, List.map_map] at hascending

end Market

end Backtest
