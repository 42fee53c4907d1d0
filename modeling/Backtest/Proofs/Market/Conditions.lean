import Backtest.Proofs.Market.Cells
import Backtest.Proofs.Market.Dates

/-!
# The condition columns of market data

Every column that is not one of the required ones is a condition, and the market has its truth values
under its title: on the date of each row stands what the row says in this column. Titles count without the
blanks around them, and a condition set has one series for a name. So of several columns under one title
the last one is kept, and what the others say is lost without an error.
-/

namespace Backtest

namespace Market

variable {α : Type}

/-! ### Series of columns -/

/-- A series made of rows has on the date of each row the value that was taken from it. -/
theorem get?_of_ofLists {rows : List (Row α)} {valueOf : Row α → Bool} {series : Series Bool}
    (hseries : Series.ofLists (rows.map Row.date) (rows.map valueOf) = .ok series) {row : Row α}
    (hrow : row ∈ rows) : series.get? row.date = some (valueOf row) := by
  rw [Series.get?_eq_some_iff, Series.entries_of_ofLists hseries, List.zip_map', List.mem_map]
  exact ⟨row, hrow, rfl⟩

variable {rows : List (Row α)} {conditions result : ConditionSet} {index : Nat}

theorem get?_addConditions_of_not_mem {columns : List (Nat × String)} {name : String}
    (hresult : addConditions rows conditions index columns = .ok result)
    (hname : name ∉ columns.map Prod.snd) : result.get? name = conditions.get? name := by
  induction columns generalizing conditions index with
  | nil =>
      cases hresult
      rfl
  | cons column rest ih =>
      rw [List.map_cons, List.mem_cons, not_or] at hname
      rw [addConditions] at hresult
      split at hresult
      · cases hresult
      · rw [ih hresult hname.2, NameTable.get?_insert_of_ne _ _ hname.1]

/-- The last column of a name gives the series under this name. -/
theorem get?_addConditions {before after : List (Nat × String)} {column : Nat × String}
    (hresult : addConditions rows conditions index (before ++ column :: after) = .ok result)
    (hlast : column.2 ∉ after.map Prod.snd) :
    ∃ series, result.get? column.2 = some series ∧ Series.ofLists (rows.map Row.date)
      (rows.map fun row => row.flags.getD (index + before.length) false) = .ok series := by
  induction before generalizing conditions index with
  | nil =>
      rw [List.nil_append, addConditions] at hresult
      split at hresult
      · cases hresult
      · next series hseries =>
          refine ⟨series, ?_, hseries⟩
          rw [get?_addConditions_of_not_mem hresult hlast, NameTable.get?_insert_self]
  | cons first before ih =>
      rw [List.cons_append, addConditions] at hresult
      split at hresult
      · cases hresult
      · obtain ⟨series, hfound, hseries⟩ := ih hresult
        refine ⟨series, hfound, ?_⟩
        rwa [List.length_cons, Nat.add_comm before.length, ← Nat.add_assoc]

/-! ### Columns that are kept -/

/-- The market has, under the title of a column, a series with a value on the date of each row, and this
value is what the row says in the column. -/
def Keeps (market : Market α) (table : Csv.Table) (index : Nat) (title : String) : Prop :=
  ∃ series, market.conditions.get? (Text.trim title) = some series ∧
    series.dates = market.bars.map Bar.date ∧
    ∀ record ∈ table.rows, ∃ texts place date flag, record = .ok texts ∧
      Column.index? table.header .date = some place ∧ Says Date.ofText? texts place date ∧
      Says flagOfText? texts index flag ∧ series.get? date = some flag

/-- No condition column further to the right has the same title, blanks aside. -/
def IsLastOfTitle (header : List String) (index : Nat) (title : String) : Prop :=
  ∀ later other, IsCondition header later other → Text.trim other = Text.trim title → later ≤ index

theorem rel_getD_of_append {β γ : Type} {R : β → γ → Prop} {before after : List β} {item : β}
    {values : List γ} (hvalues : List.Forall₂ R (before ++ item :: after) values) (default : γ) :
    R item (values.getD before.length default) := by
  induction before generalizing values with
  | nil =>
      cases hvalues with
      | cons hfirst _ => exact hfirst
  | cons first before ih =>
      cases hvalues with
      | cons _ hrest => exact ih hrest

variable [Scalar α] {symbol path : String} {bytes : Text.Bytes} {table : Csv.Table} {market : Market α}

theorem mem_names_of_ofTable (hmarket : ofTable symbol table = .ok market) {name : String} :
    name ∈ market.conditions.names ↔
      ∃ index title, IsCondition table.header index title ∧ Text.trim title = name := by
  obtain ⟨columns, rows, hcolumns, _, _, _, hconditions⟩ := ofTable_eq_ok_iff.mp hmarket
  rw [mem_names_addConditions hconditions, or_iff_right (fun hempty => nomatch hempty), List.mem_map]
  constructor
  · rintro ⟨⟨index, found⟩, hcolumn, rfl⟩
    exact ⟨index, (Columns.mem_conditions_iff hcolumns).mp hcolumn⟩
  · rintro ⟨index, hcondition⟩
    exact ⟨(index, name), (Columns.mem_conditions_iff hcolumns).mpr hcondition, rfl⟩

theorem keeps_of_last (hmarket : ofTable symbol table = .ok market) {index : Nat} {title : String}
    (hcondition : IsCondition table.header index title) (hlast : IsLastOfTitle table.header index title) :
    market.Keeps table index title := by
  obtain ⟨columns, rows, hcolumns, hrows, _, hbars, hconditions⟩ := ofTable_eq_ok_iff.mp hmarket
  have hcolumn : (index, Text.trim title) ∈ columns.conditions :=
    (Columns.mem_conditions_iff hcolumns).mpr ⟨title, hcondition, rfl⟩
  obtain ⟨before, after, hsplit⟩ := List.append_of_mem hcolumn
  have hfree : Text.trim title ∉ after.map Prod.snd := by
    intro hmem
    obtain ⟨⟨later, name⟩, hlater, hname⟩ := List.mem_map.mp hmem
    have hascending := pairwise_conditionColumns (Column.all.filterMap (Column.index? table.header)) 0
      table.header
    rw [← Columns.conditions_of_ofHeader hcolumns, hsplit, List.pairwise_append,
      List.pairwise_cons] at hascending
    have hright : index < later := hascending.2.1.1 _ hlater
    obtain ⟨other, hother, hsame⟩ := (Columns.mem_conditions_iff hcolumns).mp
      (hsplit ▸ List.mem_append_right before (List.mem_cons_of_mem _ hlater))
    exact absurd (hlast later other hother (hsame.trans hname)) (Nat.not_le.mpr hright)
  rw [hsplit] at hconditions
  obtain ⟨series, hfound, hseries⟩ := get?_addConditions hconditions hfree
  refine ⟨series, hfound, ?_, fun record hrecord => ?_⟩
  · rw [Series.dates_of_ofLists hseries, hbars, List.map_map]
    rfl
  · obtain ⟨row, hrow, texts, rfl, hsaid⟩ :=
      exists_rel_of_mem (Row.ofTable_eq_ok_iff.mp hrows) hrecord
    have hflags := hsaid.flags
    rw [hsplit] at hflags
    refine ⟨texts, columns.index .date, row.date, row.flags.getD (0 + before.length) false, rfl,
      Columns.index_of_ofHeader hcolumns .date, hsaid.bar.date, ?_, ?_⟩
    · rw [Nat.zero_add]
      exact rel_getD_of_append hflags false
    · exact get?_of_ofLists hseries ((Row.sort_perm rows).mem_iff.mpr hrow)

theorem ofFile_eq_ofTable (htable : Csv.Table.ofBytes bytes = .ok table) :
    (ofFile symbol path (.ok bytes) : Except Error (Market α)) = ofTable symbol table := by
  rw [ofFile, ofBytes, htable]
  rfl

theorem isLastOfTitle_of_length_le {header : List String} {index : Nat}
    (hlength : header.length ≤ index + 1) (title : String) : IsLastOfTitle header index title := by
  intro later other hlater _
  have hbound : later < header.length := (List.getElem?_eq_some_iff.mp hlater.1).1
  omega

omit [Scalar α] in
/-- Columns of one title that are all kept say the same. -/
theorem Keeps.unique {first second : Nat} {title other : String} (hfirst : market.Keeps table first title)
    (hsecond : market.Keeps table second other) (htitle : Text.trim title = Text.trim other)
    {texts : List String} (htexts : .ok texts ∈ table.rows) :
    ∃ flag, Says flagOfText? texts first flag ∧ Says flagOfText? texts second flag := by
  obtain ⟨series, hseries, _, hrows⟩ := hfirst
  obtain ⟨series', hseries', _, hrows'⟩ := hsecond
  rw [htitle] at hseries
  cases hseries.symm.trans hseries'
  obtain ⟨found, place, date, flag, hfound, hplace, hdate, hflag, hvalue⟩ := hrows _ htexts
  obtain ⟨found', place', date', flag', hfound', hplace', hdate', hflag', hvalue'⟩ := hrows' _ htexts
  cases hfound
  cases hfound'
  cases hplace.symm.trans hplace'
  cases hdate.unique hdate'
  cases hvalue.symm.trans hvalue'
  exact ⟨flag, hflag, hflag'⟩

/-- **The condition columns of market data.** The conditions of an accepted table are named by the titles
of its columns other than the required ones, without the blanks around them, and by nothing else. A column
is kept whenever no later one has its title. Two columns of one title are kept only when they say the same
in every row. -/
theorem keeps_columns_of_ofFile (hmarket : ofFile symbol path (.ok bytes) = .ok market) :
    ∃ table, Csv.Table.ofBytes bytes = .ok table ∧
      (∀ name, name ∈ market.conditions.names ↔
        ∃ index title, IsCondition table.header index title ∧ Text.trim title = name) ∧
      (∀ index title, IsCondition table.header index title → IsLastOfTitle table.header index title →
        market.Keeps table index title) ∧
      ∀ first second title other, market.Keeps table first title → market.Keeps table second other →
        Text.trim title = Text.trim other → ∀ texts, .ok texts ∈ table.rows →
          ∃ flag, Says flagOfText? texts first flag ∧ Says flagOfText? texts second flag := by
  rw [ofFile, ofBytes, bind_eq_ok_iff] at hmarket
  obtain ⟨table, htable, hmarket⟩ := hmarket
  refine ⟨table, mapError_eq_ok_iff.mp htable, fun name => mem_names_of_ofTable hmarket, ?_, ?_⟩
  · exact fun index title hcondition hlast => keeps_of_last hmarket hcondition hlast
  · exact fun first second title other hfirst hsecond htitle texts => hfirst.unique hsecond htitle

/-! ### Two columns of one title -/

namespace Sample

/-- The titles and the rows of `trendTable`. -/
def titles : List String := ["date", "open", "high", "low", "close", "volume", "up"]

def texts : List (List String) :=
  [["2024-01-16", "3", "4", "2", "3", "7", "no"], ["2024-01-15", "1", "2", "1", "2", "5", "yes"]]

/-- A table with one row and two condition columns of one title, which disagree. -/
def doubledTable : String := header ++ ",up,up\n2024-01-15,1,2,1,2,5,yes,no\n"

/-- The rows of the text can be read, and their dates are distinct. -/
def isAccepted (text : String) : Bool :=
  passes (fun _ rows => decide (rows.length ≠ 0 ∧ (rows.map Row.date).Nodup)) text

/-- The text is that of the table with this header and these rows. -/
def isTable (header : List String) (rows : List (List String)) (text : String) : Bool :=
  succeedsWith (fun table => decide (table.header = header ∧ table.rows = rows.map .ok))
    (Csv.Table.ofBytes (Text.encode text))

theorem exists_read (text : String) (haccepted : isAccepted text = true) :
    ∃ market, read text = .ok market := by
  obtain ⟨columns, rows, hholds, htest⟩ := exists_of_passes haccepted
  obtain ⟨hlength, hdistinct⟩ := of_decide_eq_true htest
  have hsome : rows ≠ [] := List.ne_nil_of_length_pos (Nat.pos_of_ne_zero hlength)
  exact (hholds.exists_ofFile_iff hsome).mpr (.inr hdistinct)

theorem ofBytes_of_isTable (header : List String) (rows : List (List String)) (text : String)
    (htable : isTable header rows text = true) :
    Csv.Table.ofBytes (Text.encode text) = .ok ⟨header, rows.map .ok⟩ := by
  obtain ⟨⟨found, records⟩, hfound, htest⟩ := exists_of_succeedsWith htable
  obtain ⟨rfl, rfl⟩ := of_decide_eq_true htest
  exact hfound

end Sample

theorem keeps_columns_of_ofFile_sample :
    ∃ market, Sample.read Sample.trendTable = .ok market ∧ ∃ table,
      Csv.Table.ofBytes (Text.encode Sample.trendTable) = .ok table ∧ market.Keeps table 6 "up" := by
  obtain ⟨market, hmarket⟩ := Sample.exists_read Sample.trendTable (by decide +kernel)
  have htable := Sample.ofBytes_of_isTable Sample.titles Sample.texts Sample.trendTable
    (by decide +kernel)
  obtain ⟨table, hfound, _, hkept, _⟩ := keeps_columns_of_ofFile hmarket
  cases htable.symm.trans hfound
  refine ⟨market, hmarket, _, htable, hkept 6 "up" ⟨rfl, fun column => ?_⟩ ?_⟩
  · cases column <;> decide +kernel
  · exact isLastOfTitle_of_length_le (by decide) _

/-- Of two columns under one title the first is lost: its row says that the condition is true on a day,
and the condition that is kept is false on this day. -/
theorem exists_column_not_kept :
    ∃ market, Sample.read Sample.doubledTable = .ok market ∧ ∃ table,
      Csv.Table.ofBytes (Text.encode Sample.doubledTable) = .ok table ∧
      IsCondition table.header 6 "up" ∧ ¬market.Keeps table 6 "up" := by
  obtain ⟨market, hmarket⟩ := Sample.exists_read Sample.doubledTable (by decide +kernel)
  let header := ["date", "open", "high", "low", "close", "volume", "up", "up"]
  let row := ["2024-01-15", "1", "2", "1", "2", "5", "yes", "no"]
  have htable := Sample.ofBytes_of_isTable header [row] Sample.doubledTable (by decide +kernel)
  refine ⟨market, hmarket, _, htable, ⟨rfl, fun column => ?_⟩, ?_⟩
  · cases column <;> decide +kernel
  intro hfirst
  have hlast : market.Keeps ⟨header, [.ok row]⟩ 7 "up" := by
    refine keeps_of_last ((ofFile_eq_ofTable htable).symm.trans hmarket) ⟨rfl, fun column => ?_⟩ ?_
    · cases column <;> decide +kernel
    · exact isLastOfTitle_of_length_le (by decide) _
  obtain ⟨flag, hyes, hno⟩ := hfirst.unique hlast rfl List.mem_cons_self
  have htrue : Says flagOfText? row 6 true := by decide +kernel
  have hfalse : Says flagOfText? row 7 false := by decide +kernel
  exact absurd ((htrue.unique hyes).trans (hno.unique hfalse)) (by decide)

end Market

end Backtest
