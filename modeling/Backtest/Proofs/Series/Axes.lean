import Mathlib.Data.List.Sort
import Backtest.Proofs.Lookup

/-!
# Dates that several series share

An axis is determined by the dates on it. The common axis has just the dates that every series has, so
neither the order of the series makes a difference nor what they say on other dates: without those dates
the series have the same common axis.
-/

namespace Backtest

theorem Axis.eq_of_mem_iff {left right : Axis}
    (hdates : ∀ date, date ∈ left.dates ↔ date ∈ right.dates) : left = right := by
  obtain ⟨dates, ascending⟩ := left
  obtain ⟨dates', ascending'⟩ := right
  have hsame : dates = dates' := ascending.eq_of_mem_iff ascending' hdates
  subst hsame
  rfl

namespace Series

variable {β : Type} {family : List (Series β)} {date : Date}

theorem mem_commonAxis_iff (hsome : family ≠ []) :
    date ∈ (commonAxis family).dates ↔ ∀ series ∈ family, date ∈ series.dates := by
  cases family with
  | nil => exact absurd rfl hsome
  | cons first others =>
      rw [commonAxis, List.mem_filter, List.all_eq_true, List.forall_mem_cons]
      simp only [isSome_get?_iff]

theorem commonAxis_perm {family' : List (Series β)} (hperm : family'.Perm family) :
    commonAxis family' = commonAxis family := by
  cases family with
  | nil => rw [List.perm_nil.mp hperm]
  | cons first others =>
      have hsome : family' ≠ [] := by
        rintro rfl
        cases hperm.length_eq
      refine Axis.eq_of_mem_iff fun date => ?_
      rw [mem_commonAxis_iff hsome, mem_commonAxis_iff (List.cons_ne_nil first others)]
      simp only [hperm.mem_iff]

/-! ### Series without other dates -/

/-- What a series says on the dates of an axis. -/
def restrictTo (axis : Axis) (series : Series β) : Series β where
  entries := series.entries.filter fun entry => entry.1 ∈ axis.dates
  ascending := series.ascending.sublist (List.filter_sublist.map Prod.fst)

variable {axis : Axis} {series : Series β}

theorem get?_restrictTo (hdate : date ∈ axis.dates) :
    (series.restrictTo axis).get? date = series.get? date := by
  ext value
  rw [get?_eq_some_iff, get?_eq_some_iff, restrictTo, List.mem_filter, and_iff_left (by simpa using hdate)]

theorem mem_dates_restrictTo_iff :
    date ∈ (series.restrictTo axis).dates ↔ date ∈ series.dates ∧ date ∈ axis.dates := by
  simp only [dates, restrictTo, List.mem_map, List.mem_filter, decide_eq_true_eq]
  constructor
  · rintro ⟨entry, ⟨hentry, hdate⟩, rfl⟩
    exact ⟨⟨entry, hentry, rfl⟩, hdate⟩
  · rintro ⟨⟨entry, hentry, rfl⟩, hdate⟩
    exact ⟨entry, ⟨hentry, hdate⟩, rfl⟩

theorem commonAxis_restrictTo (family : List (Series β)) :
    commonAxis (family.map (restrictTo (commonAxis family))) = commonAxis family := by
  by_cases hsome : family = []
  · rw [hsome, List.map_nil]
  refine Axis.eq_of_mem_iff fun date => ?_
  rw [mem_commonAxis_iff (by simpa using hsome), List.forall_mem_map]
  simp only [mem_dates_restrictTo_iff]
  constructor
  · intro hall
    exact (mem_commonAxis_iff hsome).mpr fun series hseries => (hall series hseries).1
  · intro hdate series hseries
    exact ⟨(mem_commonAxis_iff hsome).mp hdate series hseries, hdate⟩

end Series

end Backtest
