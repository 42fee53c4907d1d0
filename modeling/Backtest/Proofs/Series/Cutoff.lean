import Backtest.Proofs.Calendar.Order
import Backtest.Series

/-!
# Series up to a date

What remains of a series when everything after a cut-off date is removed. Every operation on series
commutes with the cut, also the one that carries a state from date to date: its state on a date is made
of earlier values alone.
-/

namespace Backtest

def Axis.upTo (cutoff : Date) (axis : Axis) : Axis where
  dates := axis.dates.filter fun date => date ≤ cutoff
  ascending := axis.ascending.sublist List.filter_sublist

namespace Series

variable {β γ δ : Type} {cutoff : Date}

def upTo (cutoff : Date) (series : Series β) : Series β where
  entries := series.entries.filter fun entry => entry.1 ≤ cutoff
  ascending := series.ascending.sublist (List.filter_sublist.map Prod.fst)

/-! ### Look-up -/

theorem lookup_filter (entries : List (Date × β)) (date : Date) :
    (entries.filter fun entry => entry.1 ≤ cutoff).lookup date =
      if date ≤ cutoff then entries.lookup date else none := by
  induction entries with
  | nil => simp
  | cons entry rest ih =>
      obtain ⟨first, value⟩ := entry
      by_cases hsame : date = first
      · subst hsame
        by_cases hkept : date ≤ cutoff
        · simp [hkept]
        · simp [hkept, ih]
      · have hne : (date == first) = false := by simpa using hsame
        by_cases hkept : first ≤ cutoff
        · simp [hkept, List.lookup_cons, hne, ih]
        · simp [hkept, List.lookup_cons, hne, ih]

theorem get?_upTo (series : Series β) (date : Date) :
    (series.upTo cutoff).get? date = if date ≤ cutoff then series.get? date else none :=
  lookup_filter series.entries date

theorem dates_upTo (series : Series β) :
    (series.upTo cutoff).dates = series.dates.filter fun date => date ≤ cutoff := by
  simp only [dates, upTo, List.filter_map]
  rfl

theorem sameAxis_upTo {left : Series β} {right : Series γ} (haxis : left.sameAxis right = true) :
    (left.upTo cutoff).sameAxis (right.upTo cutoff) = true := by
  rw [sameAxis, decide_eq_true_eq] at haxis ⊢
  rw [dates_upTo, dates_upTo, haxis]

/-! ### Operations on values -/

theorem map_upTo (f : β → γ) (series : Series β) :
    (series.map f).upTo cutoff = (series.upTo cutoff).map f := by
  apply ext_entries
  simp only [map, upTo, List.filter_map]
  rfl

theorem filter_zipWith (f : β → γ → δ) (left : List (Date × β)) (right : List (Date × γ))
    (haxis : left.map Prod.fst = right.map Prod.fst) :
    ((left.map Prod.fst).zip ((left.map Prod.snd).zipWith f (right.map Prod.snd))).filter
        (fun entry => entry.1 ≤ cutoff) =
      ((left.filter fun entry => entry.1 ≤ cutoff).map Prod.fst).zip
        (((left.filter fun entry => entry.1 ≤ cutoff).map Prod.snd).zipWith f
          ((right.filter fun entry => entry.1 ≤ cutoff).map Prod.snd)) := by
  induction left generalizing right with
  | nil => rfl
  | cons entry left ih =>
      obtain ⟨date, value⟩ := entry
      cases right with
      | nil => simp at haxis
      | cons other right =>
          obtain ⟨date', value'⟩ := other
          obtain ⟨rfl, hrest⟩ := List.cons_eq_cons.mp haxis
          by_cases hkept : date ≤ cutoff
          · simp only [List.map_cons, List.zipWith_cons_cons, List.zip_cons_cons, List.filter_cons,
              hkept, decide_true, if_true, ih right hrest]
          · simp only [List.map_cons, List.zipWith_cons_cons, List.zip_cons_cons, List.filter_cons,
              hkept, decide_false, Bool.false_eq_true, if_false, ih right hrest]

theorem zipWith_upTo (f : β → γ → δ) {left : Series β} {right : Series γ}
    (haxis : left.sameAxis right = true) :
    (left.zipWith f right).upTo cutoff = (left.upTo cutoff).zipWith f (right.upTo cutoff) := by
  rw [sameAxis, decide_eq_true_eq] at haxis
  exact ext_entries (filter_zipWith f left.entries right.entries haxis)

/-- Series are zipped only where their axes agree, and the axes still agree up to the date. -/
theorem zipWith_eq_ok_upTo {ε : Type} {refusal : ε} {f : β → γ → δ} {left : Series β}
    {right : Series γ} {result : Series δ}
    (hresult : (if left.sameAxis right then .ok (left.zipWith f right) else .error refusal) =
      Except.ok result) :
    (if (left.upTo cutoff).sameAxis (right.upTo cutoff) then
        .ok ((left.upTo cutoff).zipWith f (right.upTo cutoff))
      else .error refusal) = Except.ok (result.upTo cutoff) := by
  by_cases haxis : left.sameAxis right = true
  · rw [if_pos haxis] at hresult
    cases hresult
    rw [if_pos (sameAxis_upTo haxis), zipWith_upTo f haxis]
  · rw [if_neg haxis] at hresult
    cases hresult

/-! ### Carried states -/

theorem scanEntries_append (step : γ → β → γ) (state : γ) (first second : List (Date × β)) :
    scanEntries step state (first ++ second) =
      scanEntries step state first ++
        scanEntries step ((first.map Prod.snd).foldl step state) second := by
  induction first generalizing state with
  | nil => rfl
  | cons entry rest ih => simp [scanEntries, ih]

theorem date_of_mem_scanEntries {step : γ → β → γ} {state : γ} {entries : List (Date × β)}
    {entry : Date × γ} (hmem : entry ∈ scanEntries step state entries) :
    ∃ source ∈ entries, source.1 = entry.1 := by
  have hdate := List.mem_map_of_mem (f := Prod.fst) hmem
  rwa [dates_scanEntries, List.mem_map] at hdate

theorem scan_upTo (step : γ → β → γ) (start : γ) (series : Series β) :
    (series.scan step start).upTo cutoff = (series.upTo cutoff).scan step start := by
  apply ext_entries
  obtain ⟨early, late, hentries, hearly, hlate⟩ :=
    Date.exists_append_of_ascending Prod.fst cutoff series.ascending
  simp only [scan, upTo, hentries]
  -- The states after the cut-off stand on later dates, whatever state they started from.
  rw [scanEntries_append, Date.filter_append_eq_left hearly hlate]
  refine Date.filter_append_eq_left (fun entry hentry => ?_) fun entry hentry => ?_
  · obtain ⟨source, hsource, hdate⟩ := date_of_mem_scanEntries hentry
    exact hdate ▸ hearly source hsource
  · obtain ⟨source, hsource, hdate⟩ := date_of_mem_scanEntries hentry
    exact hdate ▸ hlate source hsource

/-! ### Axes -/

theorem onAxis_upTo {f g : Date → β} {axis : Axis}
    (hagree : ∀ date ∈ axis.dates, date ≤ cutoff → f date = g date) :
    (onAxis axis f).upTo cutoff = onAxis (axis.upTo cutoff) g := by
  apply ext_entries
  simp only [onAxis, upTo, Axis.upTo, List.filter_map]
  refine List.map_congr_left fun date hdate => ?_
  obtain ⟨hmem, hkept⟩ := List.mem_filter.mp hdate
  rw [hagree date hmem (of_decide_eq_true hkept)]

theorem commonAxis_upTo (family : List (Series β)) :
    commonAxis (family.map (upTo cutoff)) = (commonAxis family).upTo cutoff := by
  cases family with
  | nil => rfl
  | cons first others =>
      simp only [commonAxis, Axis.upTo, List.map_cons, dates_upTo, Axis.mk.injEq, List.filter_filter]
      refine List.filter_congr fun date _ => ?_
      by_cases hkept : date ≤ cutoff
      · simp [hkept, List.all_map, Function.comp_def, get?_upTo]
      · simp [hkept]

end Series

end Backtest
