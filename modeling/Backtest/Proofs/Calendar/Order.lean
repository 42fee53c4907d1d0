import Mathlib.Data.List.Pairwise
import Mathlib.Order.Basic
import Backtest.Calendar.Date

/-!
# The order of dates

Dates are ordered like the numbers of their days. The order is linear, so the general lemmas on
linear orders hold of dates. A list whose dates ascend falls into a part up to a cut-off date and a
part after it, and what a run knew on the cut-off date is the first part.
-/

namespace Backtest

instance : LinearOrder Date where
  le_refl date := Int.le_refl date.number
  le_trans _ _ _ h h' := Int.le_trans h h'
  lt_iff_le_not_ge _ _ := Int.lt_iff_le_and_not_ge
  le_antisymm first second h h' := by
    cases first
    cases second
    exact congrArg Date.mk (Int.le_antisymm h h')
  le_total first second := Int.le_total first.number second.number
  toDecidableLE := inferInstance
  toDecidableEq := inferInstance
  toDecidableLT := inferInstance

namespace Date

variable {β : Type} {dateOf : β → Date} {cutoff : Date}

theorem exists_append_of_ascending (dateOf : β → Date) (cutoff : Date) {items : List β}
    (hascending : (items.map dateOf).Pairwise (· < ·)) :
    ∃ early late, items = early ++ late ∧ (∀ item ∈ early, dateOf item ≤ cutoff) ∧
      ∀ item ∈ late, cutoff < dateOf item := by
  induction items with
  | nil => exact ⟨[], [], by simp⟩
  | cons first rest ih =>
      rw [List.map_cons, List.pairwise_cons] at hascending
      by_cases hfirst : dateOf first ≤ cutoff
      · obtain ⟨early, late, hsplit, hearly, hlate⟩ := ih hascending.2
        refine ⟨first :: early, late, by rw [hsplit, List.cons_append], ?_, hlate⟩
        simpa [hfirst] using hearly
      · have hafter : cutoff < dateOf first := not_le.mp hfirst
        refine ⟨[], first :: rest, rfl, by simp, ?_⟩
        intro item hitem
        rcases List.mem_cons.mp hitem with rfl | hrest
        · exact hafter
        · exact lt_trans hafter (hascending.1 _ (List.mem_map_of_mem hrest))

theorem filter_append_eq_left {early late : List β} (hearly : ∀ item ∈ early, dateOf item ≤ cutoff)
    (hlate : ∀ item ∈ late, cutoff < dateOf item) :
    ((early ++ late).filter fun item => dateOf item ≤ cutoff) = early := by
  rw [List.filter_append, List.filter_eq_self.mpr (by simpa using hearly),
    List.filter_eq_nil_iff.mpr (by simpa using hlate), List.append_nil]

theorem filter_le_of_ascending {early late : List β} {item : β}
    (hascending : ((early ++ item :: late).map dateOf).Pairwise (· < ·)) :
    ((early ++ item :: late).filter fun other => dateOf other ≤ dateOf item) = early ++ [item] := by
  rw [List.map_append, List.map_cons, List.pairwise_append, List.pairwise_cons] at hascending
  obtain ⟨_, ⟨hlate, _⟩, hearly⟩ := hascending
  rw [List.append_cons]
  refine filter_append_eq_left (fun other hother => ?_) fun other hother => ?_
  · rcases List.mem_append.mp hother with hbefore | hitem
    · exact (hearly _ (List.mem_map_of_mem hbefore) _ List.mem_cons_self).le
    · rw [List.mem_singleton.mp hitem]
  · exact hlate _ (List.mem_map_of_mem hother)

end Date

end Backtest
