import Mathlib.Tactic.SplitIfs
import Backtest.Proofs.Calendar.Order
import Backtest.Series

/-!
# Series made of two lists

A list of dates and a list of values are a series when they have the same length and the dates ascend.
The series then has just these dates and these values, so a series taken apart is put together again.
-/

namespace Backtest.Series

variable {β : Type} {dates : List Date} {values : List β} {series : Series β}

theorem firstDescent?_eq_none_iff : firstDescent? dates = none ↔ dates.Pairwise (· < ·) := by
  refine ⟨pairwise_of_firstDescent?_eq_none, fun hascending => ?_⟩
  induction dates with
  | nil => rfl
  | cons first rest ih =>
      obtain ⟨hfirst, hrest⟩ := List.pairwise_cons.mp hascending
      cases rest with
      | nil => rfl
      | cons second rest =>
          rw [firstDescent?, if_pos (hfirst second List.mem_cons_self)]
          exact ih hrest

theorem exists_ofLists_iff :
    (∃ series, ofLists dates values = .ok series) ↔
      dates.length = values.length ∧ dates.Pairwise (· < ·) := by
  rw [← firstDescent?_eq_none_iff]
  unfold ofLists
  by_cases hlength : dates.length = values.length
  · rw [if_neg (not_not.mpr hlength), and_iff_right hlength]
    split
    · next first second hdescent => exact iff_of_false (by simp) (by simp [hdescent])
    · next hascending => exact iff_of_true ⟨_, rfl⟩ hascending
  · rw [if_pos hlength]
    exact iff_of_false (by simp) fun hboth => hlength hboth.1

theorem entries_of_ofLists (hseries : ofLists dates values = .ok series) :
    series.entries = dates.zip values := by
  unfold ofLists at hseries
  split_ifs at hseries
  split at hseries
  · cases hseries
  · cases hseries
    rfl

theorem dates_of_ofLists (hseries : ofLists dates values = .ok series) : series.dates = dates := by
  obtain ⟨hlength, _⟩ := exists_ofLists_iff.mp ⟨series, hseries⟩
  rw [Series.dates, entries_of_ofLists hseries]
  exact List.map_fst_zip (Nat.le_of_eq hlength)

theorem values_of_ofLists (hseries : ofLists dates values = .ok series) : series.values = values := by
  obtain ⟨hlength, _⟩ := exists_ofLists_iff.mp ⟨series, hseries⟩
  rw [Series.values, entries_of_ofLists hseries]
  exact List.map_snd_zip (Nat.le_of_eq hlength.symm)

/-- The dates and the values of a series give this series. -/
theorem ofLists_dates_values (series : Series β) : ofLists series.dates series.values = .ok series := by
  have hlength : series.dates.length = series.values.length := by simp [Series.dates, Series.values]
  obtain ⟨rebuilt, hrebuilt⟩ := exists_ofLists_iff.mpr ⟨hlength, series.ascending⟩
  have hsame : rebuilt = series :=
    ext_entries ((entries_of_ofLists hrebuilt).trans (List.zip_of_prod rfl rfl).symm)
  rw [hrebuilt, hsame]

end Backtest.Series
