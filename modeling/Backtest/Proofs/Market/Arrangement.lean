import Backtest.Proofs.Csv.Arrangement
import Backtest.Proofs.Csv.Writing
import Backtest.Proofs.Market.Conditions

/-!
# Market data in another order

A column is found by its title and a row by its date, so neither the order of the columns nor that of the
rows bears on the market data. This needs distinct titles and dates: of several columns of one name the
first counts, of several conditions of one name the last, and rows of one date stay in their order.
-/

namespace Backtest.Market

open Csv (arrange getElem?_arrange arrange_perm exists_moved lt_of_moved)

/-- What titles are compared by. -/
def titleKey (title : String) : String := Text.lower (Text.trim title)

/-- Titles under which no two columns can be taken for each other. -/
def DistinctTitles (header : List String) : Prop := (header.map titleKey).Nodup

instance (header : List String) : Decidable (DistinctTitles header) :=
  inferInstanceAs (Decidable (List.Nodup _))

/-! ### Titles -/

section Titles

variable {header : List String} {order : List Nat} {index index' : Nat}

theorem DistinctTitles.index_eq (hdistinct : DistinctTitles header) {title other : String}
    (htitle : header[index]? = some title) (hother : header[index']? = some other)
    (hkey : titleKey title = titleKey other) : index = index' := by
  have hbound : index < (header.map titleKey).length := by
    rw [List.length_map]
    exact (List.getElem?_eq_some_iff.mp htitle).1
  refine (List.getElem?_inj hbound hdistinct).mp ?_
  rw [List.getElem?_map, List.getElem?_map, htitle, hother, Option.map_some, Option.map_some, hkey]

/-- A required column is found where its name stands. -/
theorem DistinctTitles.index?_eq_some_iff (hdistinct : DistinctTitles header) {column : Column} :
    Column.index? header column = some index ↔
      ∃ title, header[index]? = some title ∧ titleKey title = column.name := by
  rw [Column.index?, List.findIdx?_eq_some_iff_getElem]
  simp only [decide_eq_true_eq]
  constructor
  · rintro ⟨hbound, hname, _⟩
    exact ⟨header[index], List.getElem?_eq_getElem hbound, hname⟩
  · rintro ⟨title, htitle, hname⟩
    obtain ⟨hbound, rfl⟩ := List.getElem?_eq_some_iff.mp htitle
    refine ⟨hbound, hname, fun earlier hearlier hsame => ?_⟩
    have hearlier' : header[earlier]? = some header[earlier] := List.getElem?_eq_getElem _
    exact absurd (hdistinct.index_eq hearlier' htitle (hsame.trans hname.symm)) (Nat.ne_of_lt hearlier)

theorem DistinctTitles.isLastOfTitle (hdistinct : DistinctTitles header) {title : String}
    (htitle : header[index]? = some title) : IsLastOfTitle header index title := by
  intro later other hlater hsame
  have hkey : titleKey other = titleKey title := congrArg Text.lower hsame
  exact Nat.le_of_eq (hdistinct.index_eq hlater.1 htitle hkey)

theorem DistinctTitles.arrange (hdistinct : DistinctTitles header)
    (horder : order.Perm (List.range header.length)) : DistinctTitles (arrange order header) :=
  ((arrange_perm horder).map titleKey).nodup_iff.mpr hdistinct

/-- A title moves with its column. -/
theorem title_arrange (horder : order.Perm (List.range header.length))
    (hmoved : order[index']? = some index) :
    (arrange order header)[index']? = header[index]? := by
  rw [getElem?_arrange hmoved, List.getElem?_eq_getElem (lt_of_moved horder hmoved), Option.getD_some]

theorem DistinctTitles.index?_arrange_iff (hdistinct : DistinctTitles header)
    (horder : order.Perm (List.range header.length)) (hmoved : order[index']? = some index)
    {column : Column} :
    Column.index? (Csv.arrange order header) column = some index' ↔
      Column.index? header column = some index := by
  rw [(hdistinct.arrange horder).index?_eq_some_iff, hdistinct.index?_eq_some_iff,
    title_arrange horder hmoved]

/-- A required column is found again, and where it was moved to. -/
theorem DistinctTitles.exists_index?_arrange (hdistinct : DistinctTitles header)
    (horder : order.Perm (List.range header.length)) {column : Column}
    (hindex : Column.index? header column = some index) :
    ∃ index', Column.index? (Csv.arrange order header) column = some index' ∧
      order[index']? = some index := by
  obtain ⟨title, htitle, _⟩ := hdistinct.index?_eq_some_iff.mp hindex
  obtain ⟨index', hmoved⟩ := exists_moved horder (List.getElem?_eq_some_iff.mp htitle).1
  exact ⟨index', (hdistinct.index?_arrange_iff horder hmoved).mpr hindex, hmoved⟩

theorem DistinctTitles.isCondition_arrange_iff (hdistinct : DistinctTitles header)
    (horder : order.Perm (List.range header.length)) (hmoved : order[index']? = some index)
    {title : String} :
    IsCondition (Csv.arrange order header) index' title ↔ IsCondition header index title := by
  rw [IsCondition, IsCondition, title_arrange horder hmoved]
  simp only [ne_eq, hdistinct.index?_arrange_iff horder hmoved]

theorem DistinctTitles.exists_isCondition_arrange (hdistinct : DistinctTitles header)
    (horder : order.Perm (List.range header.length)) {title : String}
    (hcondition : IsCondition header index title) :
    ∃ index' : Nat, order[index']? = some index ∧ IsCondition (Csv.arrange order header) index' title := by
  obtain ⟨index', hmoved⟩ := exists_moved horder (List.getElem?_eq_some_iff.mp hcondition.1).1
  exact ⟨index', hmoved, (hdistinct.isCondition_arrange_iff horder hmoved).mpr hcondition⟩

theorem DistinctTitles.exists_isCondition_of_arrange (hdistinct : DistinctTitles header)
    (horder : order.Perm (List.range header.length)) {title : String}
    (hcondition : IsCondition (Csv.arrange order header) index' title) :
    ∃ index, order[index']? = some index ∧ IsCondition header index title := by
  have hbound := (List.getElem?_eq_some_iff.mp hcondition.1).1
  rw [Csv.length_arrange] at hbound
  have hmoved : order[index']? = some order[index'] := List.getElem?_eq_getElem hbound
  exact ⟨_, hmoved, (hdistinct.isCondition_arrange_iff horder hmoved).mp hcondition⟩

end Titles

/-! ### Cells -/

section Cells

variable {order : List Nat} {index index' : Nat}

theorem cellText_arrange (hmoved : order[index']? = some index) (texts : List String) :
    cellText (arrange order texts) index' = cellText texts index := by
  rw [cellText, getElem?_arrange hmoved]
  rfl

theorem says_arrange_iff (hmoved : order[index']? = some index) {β : Type} {read : String → Option β}
    {texts : List String} {value : β} :
    Says read (arrange order texts) index' value ↔ Says read texts index value := by
  rw [Says, Says, cellText_arrange hmoved]

end Cells

/-! ### Rows -/

/-- The columns stand where an order has moved them to. -/
structure Columns.MovedBy (order : List Nat) (columns columns' : Columns) : Prop where
  index : ∀ column, order[columns'.index column]? = some (columns.index column)
  conditions : ∀ index' name, (index', name) ∈ columns'.conditions →
    ∃ index, order[index']? = some index ∧ (index, name) ∈ columns.conditions

theorem exists_ofHeader_arrange {header : List String} {order : List Nat} {columns : Columns}
    (hdistinct : DistinctTitles header) (horder : order.Perm (List.range header.length))
    (hcolumns : Columns.ofHeader header = .ok columns) :
    ∃ columns', Columns.ofHeader (arrange order header) = .ok columns' ∧
      columns.MovedBy order columns' := by
  have hplaces (column : Column) := hdistinct.exists_index?_arrange horder
    (Columns.index_of_ofHeader hcolumns column)
  obtain ⟨columns', hcolumns'⟩ := Columns.exists_ofHeader_iff.mpr fun column =>
    (hplaces column).imp fun _ hboth => hboth.1
  refine ⟨columns', hcolumns', fun column => ?_, fun index' name hname => ?_⟩
  · obtain ⟨index', hindex', hmoved⟩ := hplaces column
    cases (Columns.index_of_ofHeader hcolumns' column).symm.trans hindex'
    exact hmoved
  · obtain ⟨title, htitle, hname⟩ := (Columns.mem_conditions_iff hcolumns').mp hname
    obtain ⟨index, hmoved, htitle⟩ := hdistinct.exists_isCondition_of_arrange horder htitle
    exact ⟨index, hmoved, (Columns.mem_conditions_iff hcolumns).mpr ⟨title, htitle, hname⟩⟩

variable {α : Type} [Scalar α] {order : List Nat} {columns columns' : Columns}

theorem SaysBar.arrange (hmoved : columns.MovedBy order columns') {texts : List String} {bar : Bar α}
    (hbar : SaysBar columns texts bar) : SaysBar columns' (Csv.arrange order texts) bar where
  date := (says_arrange_iff (hmoved.index _)).mpr hbar.date
  opening := (says_arrange_iff (hmoved.index _)).mpr hbar.opening
  high := (says_arrange_iff (hmoved.index _)).mpr hbar.high
  low := (says_arrange_iff (hmoved.index _)).mpr hbar.low
  close := (says_arrange_iff (hmoved.index _)).mpr hbar.close
  volume := (says_arrange_iff (hmoved.index _)).mpr hbar.volume
  volume_nonneg := hbar.volume_nonneg

theorem Row.SaidBy.arrange (hmoved : columns.MovedBy order columns') {texts : List String} {row : Row α}
    (hrow : row.SaidBy columns texts) :
    ∃ flags, Row.SaidBy columns' (Csv.arrange order texts) (Row.mk row.bar flags) := by
  have hflags : ∀ column ∈ columns'.conditions,
      ∃ flag, Says flagOfText? (Csv.arrange order texts) column.1 flag := by
    rintro ⟨index', name⟩ hcolumn
    obtain ⟨index, hplace, hindex⟩ := hmoved.conditions index' name hcolumn
    obtain ⟨flag, _, hflag⟩ := exists_rel_of_mem hrow.flags hindex
    exact ⟨flag, (says_arrange_iff hplace).mpr hflag⟩
  obtain ⟨flags, hflags⟩ := exists_forall₂_iff.mpr hflags
  exact ⟨flags, hrow.bar.arrange hmoved, hflags⟩

theorem exists_rows_arrange (hmoved : columns.MovedBy order columns') {texts : List (List String)}
    {rows : List (Row α)}
    (hrows : List.Forall₂ (fun texts row => Row.SaidBy columns texts row) texts rows) :
    ∃ rows',
      List.Forall₂ (fun texts row => Row.SaidBy columns' texts row) (texts.map (arrange order)) rows' ∧
        rows'.map Row.bar = rows.map Row.bar := by
  induction hrows with
  | nil => exact ⟨[], .nil, rfl⟩
  | @cons texts row others rows hrow _ ih =>
      obtain ⟨flags, hfirst⟩ := hrow.arrange hmoved
      obtain ⟨rows', hrest, hbars⟩ := ih
      refine ⟨⟨row.bar, flags⟩ :: rows', .cons hfirst hrest, ?_⟩
      rw [List.map_cons, List.map_cons, hbars]

/-! ### Tables -/

omit [Scalar α] in
/-- Rows with the same bars are sorted to the same bars when no date comes twice. -/
theorem Row.map_bar_sort_eq {rows rows' : List (Row α)} (hperm : (rows'.map bar).Perm (rows.map bar))
    (hdates : (rows.map date).Nodup) : (sort rows').map bar = (sort rows).map bar := by
  have hascending {rows : List (Row α)} (hdates : (rows.map date).Nodup) :
      ((sort rows).map bar).Pairwise fun first second => first.date < second.date := by
    rw [List.pairwise_map]
    exact List.pairwise_map.mp (dates_sort_ascending_iff.mpr hdates)
  have hdates' : (rows'.map date).Nodup := by
    have hsame := hperm.map Bar.date
    rw [List.map_map, List.map_map] at hsame
    exact hsame.nodup_iff.mpr hdates
  have hsorted : ((sort rows').map bar).Perm ((sort rows).map bar) :=
    ((sort_perm rows').map bar).trans (hperm.trans ((sort_perm rows).map bar).symm)
  exact hsorted.eq_of_pairwise (fun _ _ _ _ hlt hgt => absurd hgt (lt_asymm hlt)) (hascending hdates')
    (hascending hdates)

variable {symbol path : String} {bytes : Text.Bytes} {table table' : Csv.Table} {market market' : Market α}

/-- Every date of a market is what a row says. -/
theorem exists_record_of_mem_dates (hmarket : ofTable symbol table = .ok market) {date : Date}
    (hdate : date ∈ market.bars.map Bar.date) :
    ∃ texts place, .ok texts ∈ table.rows ∧ Column.index? table.header .date = some place ∧
      Says Date.ofText? texts place date := by
  obtain ⟨columns, rows, hcolumns, hrows, _, hbars, _⟩ := ofTable_eq_ok_iff.mp hmarket
  rw [hbars, List.map_map, List.mem_map] at hdate
  obtain ⟨row, hrow, rfl⟩ := hdate
  obtain ⟨record, hrecord, texts, rfl, hsaid⟩ := exists_rel_of_mem (Row.ofTable_eq_ok_iff.mp hrows).flip
    ((Row.sort_perm rows).mem_iff.mp hrow)
  exact ⟨texts, columns.index .date, hrecord, Columns.index_of_ofHeader hcolumns .date, hsaid.bar.date⟩

section

variable {header : List String} {texts texts' : List (List String)} {index index' : Nat} {title : String}

/-- A condition that is kept before and after has the same series. -/
theorem Keeps.get?_eq (hdistinct : DistinctTitles header)
    (horder : order.Perm (List.range header.length)) (htexts : texts'.Perm texts)
    (hmarket : ofTable symbol (.ofTexts header texts) = .ok market) (hbars : market'.bars = market.bars)
    (hmoved : order[index']? = some index)
    (hkeeps : market.Keeps (.ofTexts header texts) index title)
    (hkeeps' : market'.Keeps (.ofTexts (arrange order header) (texts'.map (arrange order))) index' title) :
    market'.conditions.get? (Text.trim title) = market.conditions.get? (Text.trim title) := by
  obtain ⟨series, hseries, haxis, hvalues⟩ := hkeeps
  obtain ⟨series', hseries', haxis', hvalues'⟩ := hkeeps'
  rw [hseries, hseries', Option.some.injEq]
  refine Series.eq_of_get?_eq (haxis'.trans (hbars ▸ haxis.symm)) fun date hdate => ?_
  rw [haxis', hbars] at hdate
  -- The date stands in a row, and this row says the same of the condition wherever its cells stand.
  obtain ⟨row, place, hrow, hplace, hsays⟩ := exists_record_of_mem_dates hmarket hdate
  have hrow' : .ok (arrange order row) ∈
      (Csv.Table.ofTexts (arrange order header) (texts'.map (arrange order))).rows := by
    rw [Csv.Table.mem_rows_ofTexts] at hrow ⊢
    exact List.mem_map_of_mem (htexts.mem_iff.mpr hrow)
  obtain ⟨place', hplace', hmoves⟩ := hdistinct.exists_index?_arrange horder hplace
  obtain ⟨found, _, day, flag, hfound, hcolumn, hday, hflag, hvalue⟩ := hvalues _ hrow
  obtain ⟨found', _, day', flag', hfound', hcolumn', hday', hflag', hvalue'⟩ := hvalues' _ hrow'
  cases hfound
  cases hfound'
  cases hplace.symm.trans hcolumn
  cases hplace'.symm.trans hcolumn'
  rw [says_arrange_iff hmoves] at hday'
  rw [says_arrange_iff hmoved] at hflag'
  cases hsays.unique hday
  cases hsays.unique hday'
  cases hflag.unique hflag'
  rw [hvalue, hvalue']

/-- The conditions do not depend on the order. -/
theorem conditions_eq (hdistinct : DistinctTitles header)
    (horder : order.Perm (List.range header.length)) (htexts : texts'.Perm texts)
    (hmarket : ofTable symbol (.ofTexts header texts) = .ok market)
    (hmarket' : ofTable symbol (.ofTexts (arrange order header) (texts'.map (arrange order))) = .ok market')
    (hbars : market'.bars = market.bars) : market'.conditions = market.conditions := by
  have hsame {index : Nat} {title : String} (hcondition : IsCondition header index title) :
      market'.conditions.get? (Text.trim title) = market.conditions.get? (Text.trim title) := by
    obtain ⟨index', hmoved, hcondition'⟩ := hdistinct.exists_isCondition_arrange horder hcondition
    exact Keeps.get?_eq hdistinct horder htexts hmarket hbars hmoved
      (keeps_of_last hmarket hcondition (hdistinct.isLastOfTitle hcondition.1))
      (keeps_of_last hmarket' hcondition' ((hdistinct.arrange horder).isLastOfTitle hcondition'.1))
  refine NameTable.eq_of_get?_eq fun name => ?_
  by_cases hname : name ∈ market.conditions.names
  · obtain ⟨index, title, hcondition, rfl⟩ := (mem_names_of_ofTable hmarket).mp hname
    exact hsame hcondition
  · have hname' : name ∉ market'.conditions.names := by
      rw [mem_names_of_ofTable hmarket] at hname
      rw [mem_names_of_ofTable hmarket']
      rintro ⟨index', title, hcondition', htitle⟩
      obtain ⟨index, _, hcondition⟩ := hdistinct.exists_isCondition_of_arrange horder hcondition'
      exact hname ⟨index, title, hcondition, htitle⟩
    rw [NameTable.get?_eq_none_iff.mpr hname, NameTable.get?_eq_none_iff.mpr hname']

/-- A table in another order gives the same market. -/
theorem ofTable_arrange (hdistinct : DistinctTitles header)
    (horder : order.Perm (List.range header.length)) (htexts : texts'.Perm texts)
    (hmarket : ofTable symbol (.ofTexts header texts) = .ok market)
    (hdates : (market.bars.map Bar.date).Nodup) :
    ofTable symbol (.ofTexts (arrange order header) (texts'.map (arrange order))) = .ok market := by
  obtain ⟨columns, rows, hcolumns, hrows, hsome, hbars, _⟩ := ofTable_eq_ok_iff.mp hmarket
  obtain ⟨columns', hcolumns', hmoved⟩ := exists_ofHeader_arrange hdistinct horder hcolumns
  -- The rows take their new order first and then the cells of each row theirs.
  obtain ⟨moved, hmoves, hperm⟩ := List.perm_comp_forall₂ htexts (Row.ofTable_texts_iff.mp hrows)
  obtain ⟨rows', hrows', hsame⟩ := exists_rows_arrange hmoved hmoves
  have hperm' : (rows'.map Row.bar).Perm (rows.map Row.bar) := hsame ▸ hperm.map Row.bar
  have hsome' : rows' ≠ [] := by
    rintro rfl
    exact hsome (List.map_eq_nil_iff.mp (List.nil_perm.mp hperm'))
  have hdates' : (rows.map Row.date).Nodup := by
    rw [hbars, List.map_map] at hdates
    exact ((Row.sort_perm rows).map Row.date).nodup_iff.mp hdates
  have hbars' : (Row.sort rows').map Row.bar = (Row.sort rows).map Row.bar :=
    Row.map_bar_sort_eq hperm' hdates'
  have hascending : ((Row.sort rows').map Row.date).Pairwise (· < ·) := by
    have hsame := congrArg (List.map Bar.date) hbars'
    rw [List.map_map, List.map_map] at hsame
    exact hsame ▸ Row.dates_sort_ascending_iff.mpr hdates'
  obtain ⟨conditions, hconditions⟩ :
      ∃ conditions, addConditions (Row.sort rows') .empty 0 columns'.conditions = .ok conditions :=
    exists_addConditions_iff.mpr (.inr hascending)
  have hmarket' : ofTable symbol (.ofTexts (arrange order header) (texts'.map (arrange order))) =
      .ok (Market.mk market.bars conditions) :=
    ofTable_eq_ok_iff.mpr ⟨columns', rows', hcolumns', Row.ofTable_texts_iff.mpr hrows', hsome',
      hbars.trans hbars'.symm, hconditions⟩
  -- That the new table is accepted comes first: the conditions are compared as those of two markets.
  have hsameConditions : conditions = market.conditions :=
    conditions_eq hdistinct horder htexts hmarket hmarket' rfl
  rw [hmarket', hsameConditions]

end

/-! ### Files -/

/-- **The order of rows and columns.** Put the fields of every record of an accepted table into another
order, the header's among them, and the records below the header into any order. There is a file of the
rearranged table, and every such file gives the same market data, when no two titles can be taken for each
other and no date comes twice. -/
theorem ofFile_rearranged {header : List Text.Bytes} {rows rows' : List (List Text.Bytes)}
    (hmarket : ofFile symbol path (.ok bytes) = .ok market)
    (hdates : (market.bars.map Bar.date).Nodup)
    (htable : Csv.Table.ofBytes bytes = .ok table) (hdistinct : DistinctTitles table.header)
    (hfields : Csv.fieldsOf bytes = header :: rows) (horder : order.Perm (List.range header.length))
    (hrows : rows'.Perm rows) :
    (∃ bytes', Csv.fieldsOf bytes' = (header :: rows').map (arrange order)) ∧
      ∀ bytes', Csv.fieldsOf bytes' = (header :: rows').map (arrange order) →
        ofFile symbol path (.ok bytes') = .ok market := by
  rw [ofFile_eq_ofTable htable] at hmarket
  obtain ⟨columns, found, hcolumns, hfound, _⟩ := ofTable_eq_ok_iff.mp hmarket
  obtain ⟨titles, records⟩ := table
  obtain ⟨texts, rfl⟩ := Row.exists_texts_of_ofTable hfound
  have hwidth : header.length = titles.length :=
    ((Csv.Table.ofBytes_eq_ok_iff hfields).mp htable).1.length_eq
  constructor
  · have hsome : order ≠ [] := by
      have hindex := Columns.index_of_ofHeader hcolumns .date
      obtain ⟨title, htitle, _⟩ := hdistinct.index?_eq_some_iff.mp hindex
      have hbound := (List.getElem?_eq_some_iff.mp htitle).1
      obtain ⟨place, hplace⟩ := exists_moved (hwidth ▸ horder) hbound
      exact List.ne_nil_of_mem (List.mem_of_getElem? hplace)
    refine ⟨Csv.write ((header :: rows').map (arrange order)), Csv.fieldsOf_write fun row hrow => ?_⟩
    obtain ⟨fields, _, rfl⟩ := List.mem_map.mp hrow
    rw [Csv.arrange]
    exact fun hnil => hsome (List.map_eq_nil_iff.mp hnil)
  · intro bytes' hfields'
    obtain ⟨texts', htexts, htable'⟩ := Csv.Table.ofBytes_arranged hfields horder hrows hfields' htable
    rw [ofFile_eq_ofTable htable']
    exact ofTable_arrange hdistinct (hwidth ▸ horder) htexts hmarket hdates

/-! ### A table in two orders -/

namespace Sample

/-- The table `trendTable` with the condition in front and the days in their order. -/
def movedTable : String :=
  "up,date,open,high,low,close,volume\nyes,2024-01-15,1,2,1,2,5\nno,2024-01-16,3,4,2,3,7\n"

end Sample

theorem ofFile_rearranged_sample :
    ∃ market, Sample.read Sample.trendTable = .ok market ∧ (market.bars.map Bar.date).Nodup ∧
      Sample.read Sample.movedTable = .ok market := by
  obtain ⟨market, hmarket⟩ := Sample.exists_read Sample.trendTable (by decide +kernel)
  have htable := Sample.ofBytes_of_isTable Sample.titles Sample.texts Sample.trendTable
    (by decide +kernel)
  have hcondition : IsCondition Sample.titles 6 "up" :=
    ⟨rfl, fun column => by cases column <;> decide +kernel⟩
  have hname : "up" ∈ market.conditions.names :=
    (mem_names_of_ofTable ((ofFile_eq_ofTable htable).symm.trans hmarket)).mpr ⟨6, "up", hcondition, rfl⟩
  have hdates : (market.bars.map Bar.date).Nodup :=
    ((ofFile_accepted hmarket).aligned.ascending hname).imp fun hlt => hlt.ne
  have hfields : Csv.fieldsOf (Text.encode Sample.trendTable) =
      Sample.titles.map Text.encode :: Sample.texts.map (List.map Text.encode) := by
    decide +kernel
  have hmoved := (ofFile_rearranged hmarket hdates htable (by decide +kernel) hfields
    (show [6, 0, 1, 2, 3, 4, 5].Perm _ by decide) (List.reverse_perm _)).2
  exact ⟨market, hmarket, hdates, hmoved (Text.encode Sample.movedTable) (by decide +kernel)⟩

end Backtest.Market
