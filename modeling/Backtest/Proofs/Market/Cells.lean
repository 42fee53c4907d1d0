import Backtest.Market
import Backtest.Proofs.Error.Stages

/-!
# What the cells of a table say

A table is read cell by cell. Its titles tell which column is which, and a cell says a date, a number or
a truth value, whatever blanks stand around it. A row is read exactly when its cells say a day's bar and a
truth value for every condition column. What they say does not depend on the number of the row, which
stands in messages alone.
-/

namespace Backtest.Market

/-! ### Titles -/

/-- The title stands at this place of the header, and no required column is found there. -/
def IsCondition (header : List String) (index : Nat) (title : String) : Prop :=
  header[index]? = some title ∧ ∀ column, Column.index? header column ≠ some index

theorem Column.mem_all (column : Column) : column ∈ Column.all := by
  cases column <;> decide

theorem mem_conditionColumns {required : List Nat} {start index : Nat} {header : List String}
    {name : String} :
    (index, name) ∈ conditionColumns required start header ↔
      ∃ place title, header[place]? = some title ∧ start + place = index ∧ index ∉ required ∧
        Text.trim title = name := by
  induction header generalizing start with
  | nil => simp [conditionColumns]
  | cons first rest ih =>
      have hhead : (∃ place title, (first :: rest)[place]? = some title ∧ start + place = index ∧
          index ∉ required ∧ Text.trim title = name) ↔
          (start = index ∧ index ∉ required ∧ Text.trim first = name) ∨
            ∃ place title, rest[place]? = some title ∧ start + 1 + place = index ∧ index ∉ required ∧
              Text.trim title = name := by
        constructor
        · rintro ⟨place, title, htitle, hindex, hname⟩
          cases place with
          | zero =>
              cases htitle
              exact .inl ⟨hindex, hname⟩
          | succ place => exact .inr ⟨place, title, htitle, by omega, hname⟩
        · rintro (⟨hindex, hname⟩ | ⟨place, title, htitle, hindex, hname⟩)
          · exact ⟨0, first, rfl, hindex, hname⟩
          · exact ⟨place + 1, title, htitle, by omega, hname⟩
      rw [hhead, ← ih, conditionColumns]
      by_cases hrequired : start ∈ required
      · rw [if_pos (List.contains_iff_mem.mpr hrequired), or_iff_right]
        rintro ⟨rfl, hfree, _⟩
        exact hfree hrequired
      · rw [if_neg (by simpa using hrequired), List.mem_cons, Prod.mk.injEq]
        refine or_congr_left ⟨?_, ?_⟩
        · rintro ⟨rfl, rfl⟩
          exact ⟨rfl, hrequired, rfl⟩
        · rintro ⟨rfl, _, rfl⟩
          exact ⟨rfl, rfl⟩

theorem pairwise_conditionColumns (required : List Nat) (start : Nat) (header : List String) :
    (conditionColumns required start header).Pairwise fun first second => first.1 < second.1 := by
  induction header generalizing start with
  | nil => exact .nil
  | cons first rest ih =>
      rw [conditionColumns]
      split_ifs
      · exact ih (start + 1)
      · refine List.pairwise_cons.mpr ⟨?_, ih (start + 1)⟩
        rintro ⟨index, name⟩ hcolumn
        obtain ⟨place, _, _, rfl, _⟩ := mem_conditionColumns.mp hcolumn
        show start < start + 1 + place
        omega

namespace Columns

variable {header : List String} {columns : Columns}

theorem exists_ofHeader_iff :
    (∃ columns, ofHeader header = .ok columns) ↔
      ∀ column, ∃ index, Column.index? header column = some index := by
  rw [ofHeader]
  split
  · next missing hmissing =>
    refine iff_of_false (by simp) fun hall => ?_
    obtain ⟨index, hindex⟩ := hall missing
    have hnone := (List.find?_eq_some_iff_append.mp hmissing).1
    rw [hindex] at hnone
    cases hnone
  · next hall =>
    refine iff_of_true ⟨_, rfl⟩ fun column => ?_
    have hsome := List.find?_eq_none.mp hall column (Column.mem_all column)
    rwa [Bool.not_eq_true, Option.isNone_eq_false_iff, Option.isSome_iff_exists] at hsome

theorem index_of_ofHeader (hcolumns : ofHeader header = .ok columns) (column : Column) :
    Column.index? header column = some (columns.index column) := by
  obtain ⟨index, hindex⟩ := exists_ofHeader_iff.mp ⟨columns, hcolumns⟩ column
  rw [ofHeader] at hcolumns
  split at hcolumns
  · cases hcolumns
  · cases hcolumns
    simp only [hindex, Option.getD_some]

theorem conditions_of_ofHeader (hcolumns : ofHeader header = .ok columns) :
    columns.conditions = conditionColumns (Column.all.filterMap (Column.index? header)) 0 header := by
  rw [ofHeader] at hcolumns
  split at hcolumns
  · cases hcolumns
  · cases hcolumns
    rfl

theorem mem_conditions_iff (hcolumns : ofHeader header = .ok columns) {index : Nat} {name : String} :
    (index, name) ∈ columns.conditions ↔
      ∃ title, IsCondition header index title ∧ Text.trim title = name := by
  rw [conditions_of_ofHeader hcolumns, mem_conditionColumns]
  have hfree : index ∉ Column.all.filterMap (Column.index? header) ↔
      ∀ column, Column.index? header column ≠ some index := by
    simp [List.mem_filterMap, Column.mem_all]
  rw [hfree]
  constructor
  · rintro ⟨place, title, htitle, rfl, hfree, hname⟩
    rw [Nat.zero_add] at hfree ⊢
    exact ⟨title, ⟨htitle, hfree⟩, hname⟩
  · rintro ⟨title, ⟨htitle, hfree⟩, hname⟩
    exact ⟨index, title, htitle, Nat.zero_add index, hfree, hname⟩

end Columns

/-! ### Cells -/

/-- The text in a column of a row, without the blanks around it. -/
def cellText (texts : List String) (index : Nat) : String := Text.trim (texts[index]?.getD "")

/-- The cell is not blank, and its text stands for the value. -/
def Says {β : Type} (read : String → Option β) (texts : List String) (index : Nat) (value : β) : Prop :=
  cellText texts index ≠ "" ∧ read (cellText texts index) = some value

instance {β : Type} [DecidableEq β] (read : String → Option β) (texts : List String) (index : Nat)
    (value : β) : Decidable (Says read texts index value) :=
  inferInstanceAs (Decidable (_ ∧ _))

theorem Says.unique {β : Type} {read : String → Option β} {texts : List String} {index : Nat}
    {first second : β} (hfirst : Says read texts index first) (hsecond : Says read texts index second) :
    first = second :=
  Option.some.inj (hfirst.2.symm.trans hsecond.2)

variable {α : Type} {texts : List String} {number index : Nat} {title : String} {columns : Columns}

theorem cell_eq_ok_iff {text : String} :
    cell texts number index title = .ok text ↔ cellText texts index = text ∧ text ≠ "" := by
  rw [cell, ← cellText]
  split
  · next hblank =>
    rw [hblank]
    refine iff_of_false (fun hinvalid => nomatch hinvalid) ?_
    rintro ⟨rfl, hsome⟩
    exact hsome rfl
  · next hsome =>
    rw [Except.ok.injEq, iff_self_and]
    rintro rfl
    exact hsome

/-- A cell is read when its text can be read. -/
theorem cell_bind_eq_ok_iff {β : Type} {read : String → Option β} {next : String → Except Error β}
    (hnext : ∀ text value, next text = .ok value ↔ read text = some value) {value : β} :
    cell texts number index title >>= next = .ok value ↔ Says read texts index value := by
  rw [bind_eq_ok_iff]
  simp only [cell_eq_ok_iff, and_assoc, exists_eq_left', hnext, Says]

theorem Row.flag_eq_ok_iff {value : Bool} :
    Row.flag texts number index title = .ok value ↔ Says flagOfText? texts index value := by
  refine cell_bind_eq_ok_iff fun text value => ?_
  cases flagOfText? text <;> simp [invalid, pure_eq_ok_iff]

variable [Scalar α]

theorem Row.number_eq_ok_iff {column : Column} {value : α} :
    Row.number columns texts number column = .ok value ↔
      Says Scalar.ofText? texts (columns.index column) value := by
  refine cell_bind_eq_ok_iff fun text value => ?_
  cases (Scalar.ofText? text : Option α) <;> simp [invalid, pure_eq_ok_iff]

/-! ### Rows -/

/-- What the required columns of a row say of a day. -/
structure SaysBar (columns : Columns) (texts : List String) (bar : Bar α) : Prop where
  date : Says Date.ofText? texts (columns.index .date) bar.date
  opening : Says Scalar.ofText? texts (columns.index .opening) bar.opening
  high : Says Scalar.ofText? texts (columns.index .high) bar.high
  low : Says Scalar.ofText? texts (columns.index .low) bar.low
  close : Says Scalar.ofText? texts (columns.index .close) bar.close
  volume : Says Scalar.ofText? texts (columns.index .volume) bar.volume
  volume_nonneg : ¬bar.volume < 0

/-- What a row says of a day and, in the order of the condition columns, of the conditions on it. -/
structure Row.SaidBy (columns : Columns) (texts : List String) (row : Row α) : Prop where
  bar : SaysBar columns texts row.bar
  flags : List.Forall₂ (fun column flag => Says flagOfText? texts column.1 flag) columns.conditions row.flags

/-- The form that a check of a row takes when more follows it. -/
theorem invalid_bind_eq_ok_iff {β : Type} {p : Prop} [Decidable p] {fault : SchemaFault}
    {next : Except Error β} {result : β} :
    (if p then invalid fault >>= fun _ : PUnit => next else next) = .ok result ↔
      ¬p ∧ next = .ok result :=
  refuse_bind_eq_ok_iff

theorem Row.ofTexts_eq_ok_iff {row : Row α} :
    Row.ofTexts columns number texts = .ok row ↔ row.SaidBy columns texts := by
  obtain ⟨⟨date, opening, high, low, close, volume⟩, flags⟩ := row
  rw [Row.ofTexts, bind_eq_ok_iff]
  simp only [cell_eq_ok_iff, and_assoc, exists_eq_left']
  constructor
  · rintro ⟨hsome, hrow⟩
    split at hrow
    · cases hrow
    · next found hfound =>
      simp only [bind_eq_ok_iff, invalid_bind_eq_ok_iff, Row.number_eq_ok_iff, mapM_eq_ok_iff,
        Row.flag_eq_ok_iff, pure_eq_ok_iff] at hrow
      obtain ⟨_, hvolume, hnonneg, _, hopening, _, hhigh, _, hlow, _, hclose, _, hflags, hrow⟩ := hrow
      cases hrow
      exact ⟨⟨⟨hsome, hfound⟩, hopening, hhigh, hlow, hclose, hvolume, hnonneg⟩, hflags⟩
  · rintro ⟨⟨hdate, hopening, hhigh, hlow, hclose, hvolume, hnonneg⟩, hflags⟩
    refine ⟨hdate.1, ?_⟩
    rw [hdate.2]
    simp only [bind_eq_ok_iff, invalid_bind_eq_ok_iff, Row.number_eq_ok_iff, mapM_eq_ok_iff,
      Row.flag_eq_ok_iff, pure_eq_ok_iff]
    exact ⟨volume, hvolume, hnonneg, opening, hopening, high, hhigh, low, hlow, close, hclose, flags,
      hflags, rfl⟩

/-- The rows of a table are read exactly when every record of it is a row that can be read. -/
theorem Row.ofTable_eq_ok_iff {records : List (Except Csv.Fault (List String))} {rows : List (Row α)} :
    Row.ofTable columns number records = .ok rows ↔
      List.Forall₂ (fun record row => ∃ texts, record = .ok texts ∧ Row.SaidBy columns texts row)
        records rows := by
  induction records generalizing number rows with
  | nil =>
      rw [Row.ofTable, Except.ok.injEq, List.forall₂_nil_left_iff, eq_comm]
  | cons record rest ih =>
      rw [Row.ofTable, List.forall₂_cons_left_iff]
      simp only [bind_eq_ok_iff, mapError_eq_ok_iff, Row.ofTexts_eq_ok_iff, ih, pure_eq_ok_iff]
      constructor
      · rintro ⟨texts, htexts, row, hrow, others, hothers, rfl⟩
        exact ⟨row, others, ⟨texts, htexts, hrow⟩, hothers, rfl⟩
      · rintro ⟨row, others, ⟨texts, htexts, hrow⟩, hothers, rfl⟩
        exact ⟨texts, htexts, row, hrow, others, hothers, rfl⟩

theorem Row.ofTable_texts_iff {rows : List (Row α)} {texts : List (List String)} :
    Row.ofTable columns number (texts.map .ok) = .ok rows ↔
      List.Forall₂ (fun texts row => Row.SaidBy columns texts row) texts rows := by
  rw [Row.ofTable_eq_ok_iff, List.forall₂_map_left_iff]
  simp only [Except.ok.injEq, exists_eq_left']

/-- No record of a table whose rows are read is a fault. -/
theorem Row.exists_texts_of_ofTable {records : List (Except Csv.Fault (List String))}
    {rows : List (Row α)} (hrows : Row.ofTable columns number records = .ok rows) :
    ∃ texts : List (List String), records = texts.map .ok := by
  have hall : ∀ record ∈ records, ∃ texts, record = .ok texts := by
    intro record hrecord
    obtain ⟨row, _, texts, htexts, _⟩ := exists_rel_of_mem (Row.ofTable_eq_ok_iff.mp hrows) hrecord
    exact ⟨texts, htexts⟩
  obtain ⟨texts, htexts⟩ := exists_forall₂_iff.mpr hall
  refine ⟨texts, ?_⟩
  rwa [← List.forall₂_eq_eq_eq, List.forall₂_map_right_iff]

end Backtest.Market
