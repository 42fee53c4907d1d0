import Mathlib.Data.List.Induction
import Mathlib.Data.List.Nodup
import Mathlib.Data.Option.NAry
import Backtest.NameTable
import Backtest.Proofs.Calendar.Order
import Backtest.Series

/-!
# Look-up

Name tables and series are both lists of entries whose keys are distinct, because they ascend. So an
entry is found under its key wherever it stands, and what is found is an entry.
-/

namespace Backtest

theorem lookup_eq_some_iff_mem {κ β : Type} [DecidableEq κ] {entries : List (κ × β)}
    (hdistinct : (entries.map Prod.fst).Nodup) {key : κ} {value : β} :
    entries.lookup key = some value ↔ (key, value) ∈ entries := by
  induction entries with
  | nil => simp
  | cons entry rest ih =>
      obtain ⟨first, held⟩ := entry
      rw [List.map_cons, List.nodup_cons] at hdistinct
      by_cases hsame : key = first
      · subst hsame
        have hrest : (key, value) ∉ rest := fun hmem =>
          hdistinct.1 (List.mem_map.mpr ⟨_, hmem, rfl⟩)
        simp [hrest, eq_comm]
      · have hne : (key == first) = false := by simpa using hsame
        simp [List.lookup_cons, hne, hsame, ih hdistinct.2]

theorem lookup_map {β γ κ : Type} [DecidableEq κ] (f : β → γ) (key : κ) (entries : List (κ × β)) :
    (entries.map fun entry => (entry.1, f entry.2)).lookup key = (entries.lookup key).map f := by
  induction entries with
  | nil => rfl
  | cons entry rest ih =>
      obtain ⟨other, value⟩ := entry
      rw [List.map_cons, List.lookup_cons, List.lookup_cons, ih]
      cases key == other <;> rfl

/-- Items under their own keys are found as the first item of a key. -/
theorem lookup_map_prod {β γ κ : Type} [DecidableEq κ] (key : β → κ) (value : β → γ) (items : List β)
    (wanted : κ) :
    (items.map fun item => (key item, value item)).lookup wanted =
      (items.find? fun item => key item = wanted).map value := by
  induction items with
  | nil => rfl
  | cons item rest ih =>
      by_cases hsame : key item = wanted
      · simp [hsame]
      · have hne : (wanted == key item) = false := by simpa using Ne.symm hsame
        simp [List.lookup_cons, hne, hsame, ih]

/-- The order of entries makes no difference to look-up. -/
theorem lookup_perm {κ β : Type} [DecidableEq κ] {entries entries' : List (κ × β)}
    (hperm : entries'.Perm entries) (hdistinct : (entries.map Prod.fst).Nodup) (key : κ) :
    entries'.lookup key = entries.lookup key := by
  have hdistinct' : (entries'.map Prod.fst).Nodup := (hperm.map Prod.fst).nodup_iff.mpr hdistinct
  ext value
  rw [lookup_eq_some_iff_mem hdistinct', lookup_eq_some_iff_mem hdistinct, hperm.mem_iff]

/-- Entries in the order of their keys are determined by their look-up. -/
theorem eq_of_lookup_eq {κ β : Type} [DecidableEq κ] [LT κ]
    (hasymm : ∀ first second : κ, first < second → ¬second < first) {left right : List (κ × β)}
    (hleft : (left.map Prod.fst).Pairwise (· < ·)) (hright : (right.map Prod.fst).Pairwise (· < ·))
    (hlookup : ∀ key, left.lookup key = right.lookup key) : left = right := by
  have hdistinct {keys : List κ} (hkeys : keys.Pairwise (· < ·)) : keys.Nodup :=
    hkeys.imp fun hlt => by
      rintro rfl
      exact hasymm _ _ hlt hlt
  have hperm : left.Perm right := by
    have hleft' : left.Nodup := List.Nodup.of_map _ (hdistinct hleft)
    have hright' : right.Nodup := List.Nodup.of_map _ (hdistinct hright)
    refine (List.perm_ext_iff_of_nodup hleft' hright').mpr ?_
    rintro ⟨key, value⟩
    rw [← lookup_eq_some_iff_mem (hdistinct hleft), ← lookup_eq_some_iff_mem (hdistinct hright),
      hlookup key]
  rw [List.pairwise_map] at hleft hright
  exact hperm.eq_of_pairwise (fun _ _ _ _ hlt hgt => absurd hgt (hasymm _ _ hlt)) hleft hright

namespace NameTable

variable {β : Type} {table : NameTable β} {name : String} {value : β}

theorem nodup_names (table : NameTable β) : table.names.Nodup :=
  table.ascending.imp fun hlt => by
    rintro rfl
    exact String.lt_irrefl _ hlt

theorem get?_eq_some_iff : table.get? name = some value ↔ (name, value) ∈ table.entries :=
  lookup_eq_some_iff_mem table.nodup_names

theorem mem_names_iff : name ∈ table.names ↔ ∃ value, table.get? name = some value := by
  simp only [get?_eq_some_iff, names, List.mem_map, Prod.exists, exists_and_right, exists_eq_right]

theorem get?_eq_none_iff : table.get? name = none ↔ name ∉ table.names := by
  rw [mem_names_iff, Option.eq_none_iff_forall_ne_some, not_exists]

theorem mem_values_iff : value ∈ table.values ↔ ∃ name, table.get? name = some value := by
  simp only [get?_eq_some_iff, values, List.mem_map, Prod.exists, exists_eq_right]

theorem get?_insert (table : NameTable β) (name other : String) (value : β) :
    (table.insert name value).get? other = if other = name then some value else table.get? other := by
  by_cases hsame : other = name
  · rw [if_pos hsame, hsame, get?_insert_self]
  · rw [if_neg hsame, get?_insert_of_ne table value hsame]

theorem mem_names_insert {other : String} :
    other ∈ (table.insert name value).names ↔ other = name ∨ other ∈ table.names := by
  rw [mem_names_iff, mem_names_iff, get?_insert]
  split_ifs with hsame
  · exact iff_of_true ⟨value, rfl⟩ (.inl hsame)
  · rw [or_iff_right hsame]

theorem ofList_concat (entries : List (String × β)) (name : String) (value : β) :
    ofList (entries ++ [(name, value)]) = (ofList entries).insert name value := by
  rw [ofList, List.foldl_append]
  rfl

theorem mem_names_ofList {entries : List (String × β)} :
    name ∈ (ofList entries).names ↔ name ∈ entries.map Prod.fst := by
  induction entries using List.reverseRecOn with
  | nil => rfl
  | append_singleton rest entry ih =>
      rw [ofList_concat, mem_names_insert, ih, List.map_append, List.mem_append, or_comm,
        List.map_singleton, List.mem_singleton]

theorem mem_distinct_iff {names : List String} : name ∈ distinct names ↔ name ∈ names := by
  simp [distinct, mem_names_ofList]

theorem eq_of_get?_eq {left right : NameTable β} (hget : ∀ name, left.get? name = right.get? name) :
    left = right := by
  obtain ⟨entries, hascending⟩ := left
  obtain ⟨entries', hascending'⟩ := right
  have hsame : entries = entries' :=
    eq_of_lookup_eq (fun _ _ hlt => String.lt_asymm hlt) hascending hascending' hget
  subst hsame
  rfl

theorem eq_of_perm {left right : NameTable β} (hperm : left.entries.Perm right.entries) : left = right :=
  eq_of_get?_eq fun name => lookup_perm hperm right.nodup_names name

theorem perm_insertEntry {entries : List (String × β)} (hnew : name ∉ entries.map Prod.fst) :
    (insertEntry name value entries).Perm ((name, value) :: entries) := by
  induction entries with
  | nil => exact .refl _
  | cons entry rest ih =>
      obtain ⟨other, held⟩ := entry
      rw [List.map_cons, List.mem_cons, not_or] at hnew
      rw [insertEntry]
      split_ifs with hbefore hbehind
      · exact .refl _
      · exact ((ih hnew.2).cons _).trans (.swap _ _ _)
      · exact absurd (String.le_antisymm (String.not_lt.mp hbehind) (String.not_lt.mp hbefore)) hnew.1

/-- A name that a table does not have yet adds one entry and changes no other. -/
theorem perm_insert (hnew : name ∉ table.names) :
    (table.insert name value).entries.Perm ((name, value) :: table.entries) :=
  perm_insertEntry hnew

theorem perm_ofList {entries : List (String × β)} (hdistinct : (entries.map Prod.fst).Nodup) :
    (ofList entries).entries.Perm entries := by
  induction entries using List.reverseRecOn with
  | nil => exact .refl _
  | append_singleton rest entry ih =>
      rw [List.map_append, List.map_singleton, List.nodup_append] at hdistinct
      have hnew : entry.1 ∉ (ofList rest).names := by
        rw [mem_names_ofList]
        exact fun hmem => hdistinct.2.2 _ hmem _ (List.mem_singleton_self _) rfl
      rw [ofList_concat]
      exact (perm_insert hnew).trans (((ih hdistinct.1).cons entry).trans (List.perm_append_singleton ..).symm)

end NameTable

namespace Series

variable {β γ δ : Type} {series : Series β} {date : Date} {value : β}

theorem nodup_dates (series : Series β) : series.dates.Nodup :=
  series.ascending.imp fun hlt => hlt.ne

theorem get?_eq_some_iff : series.get? date = some value ↔ (date, value) ∈ series.entries :=
  lookup_eq_some_iff_mem series.nodup_dates

theorem mem_dates_iff : date ∈ series.dates ↔ ∃ value, series.get? date = some value := by
  simp only [get?_eq_some_iff, dates, List.mem_map, Prod.exists, exists_and_right, exists_eq_right]

theorem get?_eq_none_iff : series.get? date = none ↔ date ∉ series.dates := by
  rw [mem_dates_iff, Option.eq_none_iff_forall_ne_some, not_exists]

theorem isSome_get?_iff : (series.get? date).isSome = true ↔ date ∈ series.dates := by
  rw [mem_dates_iff, Option.isSome_iff_exists]

theorem eq_of_get?_eq {left right : Series β} (haxis : left.dates = right.dates)
    (hget : ∀ date ∈ left.dates, left.get? date = right.get? date) : left = right := by
  have hlookup (date : Date) : left.entries.lookup date = right.entries.lookup date := by
    by_cases hdate : date ∈ left.dates
    · exact hget date hdate
    · exact (get?_eq_none_iff.mpr hdate).trans (get?_eq_none_iff.mpr (haxis ▸ hdate)).symm
  exact ext_entries (eq_of_lookup_eq (fun _ _ hlt => lt_asymm hlt) left.ascending right.ascending hlookup)

theorem get?_map (f : β → γ) (series : Series β) (date : Date) :
    (series.map f).get? date = (series.get? date).map f :=
  lookup_map f date series.entries

/-! ### Series of one axis -/

theorem dates_zipWith (f : β → γ → δ) {left : Series β} {right : Series γ}
    (haxis : left.dates = right.dates) : (left.zipWith f right).dates = left.dates := by
  have hlength : left.dates.length = (left.values.zipWith f right.values).length := by
    have hsize : left.entries.length = right.entries.length := by
      simpa [dates] using congrArg List.length haxis
    simp [dates, values, hsize]
  exact List.map_fst_zip (Nat.le_of_eq hlength)

theorem lookup_zip_zipWith (f : β → γ → δ) {left : List (Date × β)} {right : List (Date × γ)}
    (haxis : left.map Prod.fst = right.map Prod.fst) (date : Date) :
    ((left.map Prod.fst).zip ((left.map Prod.snd).zipWith f (right.map Prod.snd))).lookup date =
      Option.map₂ f (left.lookup date) (right.lookup date) := by
  induction left generalizing right with
  | nil => rfl
  | cons first left ih =>
      cases right with
      | nil => cases haxis
      | cons second right =>
          obtain ⟨day, value⟩ := first
          obtain ⟨day', value'⟩ := second
          rw [List.map_cons, List.map_cons, List.cons.injEq] at haxis
          obtain ⟨hday, haxis⟩ := haxis
          cases hday
          cases hsame : date == day with
          | true => simp [List.lookup_cons, hsame]
          | false => simpa [List.lookup_cons, hsame] using ih haxis

theorem get?_zipWith (f : β → γ → δ) {left : Series β} {right : Series γ}
    (haxis : left.dates = right.dates) (date : Date) :
    (left.zipWith f right).get? date = Option.map₂ f (left.get? date) (right.get? date) :=
  lookup_zip_zipWith f haxis date

theorem dates_commonAxis {family : List (Series β)} {dates : List Date} (hsome : family ≠ [])
    (haxis : ∀ series ∈ family, series.dates = dates) : (commonAxis family).dates = dates := by
  cases family with
  | nil => exact absurd rfl hsome
  | cons first others =>
      obtain ⟨hfirst, hothers⟩ := List.forall_mem_cons.mp haxis
      have hkept : (first.dates.filter fun date => others.all fun other => (other.get? date).isSome) =
          first.dates := by
        rw [List.filter_eq_self]
        intro date hdate
        rw [List.all_eq_true]
        intro other hother
        rw [isSome_get?_iff, hothers other hother, ← hfirst]
        exact hdate
      exact hkept.trans hfirst

end Series

end Backtest
