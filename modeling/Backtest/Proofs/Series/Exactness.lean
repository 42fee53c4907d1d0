import Mathlib.Data.Finset.Sort
import Mathlib.Data.Finset.Lattice.Basic
import Backtest.Proofs.Series.Axes
import Backtest.Proofs.Series.Lists

/-!
# Look-up and intersection are exact

A series is checked at neighbouring dates only. That its dates ascend throughout is what look-up by
halving and the intersection of several axes rest on: a half that is thrown away cannot have the date,
and the dates that all series have are a sorted list of their own, whatever the order of the series.
-/

namespace Backtest.Series

variable {β γ : Type}

/-! ### Look-up by halving -/

/-- The place of a date among the places from `low` up to `high`, found by halving. -/
def placeBetween? (dates : List Date) (date : Date) (low high : Nat) : Option Nat :=
  if low < high then
    match dates[(low + high) / 2]? with
    | none => none
    | some middle =>
      if middle < date then placeBetween? dates date ((low + high) / 2 + 1) high
      else if date < middle then placeBetween? dates date low ((low + high) / 2)
      else some ((low + high) / 2)
  else none
termination_by high - low

def place? (dates : List Date) (date : Date) : Option Nat := placeBetween? dates date 0 dates.length

section Halving

variable {dates : List Date} {date : Date} {low high place : Nat}

theorem lt_of_getElem?_lt (hascending : dates.Pairwise (· < ·)) {first second : Nat}
    {early late : Date} (hearly : dates[first]? = some early) (hlate : dates[second]? = some late)
    (hlt : early < late) : first < second := by
  obtain ⟨_, rfl⟩ := List.getElem?_eq_some_iff.mp hearly
  obtain ⟨_, rfl⟩ := List.getElem?_eq_some_iff.mp hlate
  exact hascending.sortedLT.getElem_lt_getElem_iff.mp hlt

theorem placeBetween?_eq_some_iff (hascending : dates.Pairwise (· < ·)) (hhigh : high ≤ dates.length) :
    placeBetween? dates date low high = some place ↔
      low ≤ place ∧ place < high ∧ dates[place]? = some date := by
  fun_induction placeBetween? dates date low high with
  | case1 low high hlow hnone =>
      rw [List.getElem?_eq_none_iff] at hnone
      omega
  | case2 low high hlow middle hmiddle hbefore ih =>
      rw [ih hhigh]
      constructor
      · rintro ⟨hle, hlt, hplace⟩
        exact ⟨by omega, hlt, hplace⟩
      · rintro ⟨hle, hlt, hplace⟩
        exact ⟨lt_of_getElem?_lt hascending hmiddle hplace hbefore, hlt, hplace⟩
  | case3 low high hlow middle hmiddle hbefore hafter ih =>
      rw [ih (by omega)]
      constructor
      · rintro ⟨hle, hlt, hplace⟩
        exact ⟨hle, by omega, hplace⟩
      · rintro ⟨hle, hlt, hplace⟩
        exact ⟨hle, lt_of_getElem?_lt hascending hplace hmiddle hafter, hplace⟩
  | case4 low high hlow middle hmiddle hbefore hafter =>
      have hsame : middle = date := le_antisymm (not_lt.mp hafter) (not_lt.mp hbefore)
      subst hsame
      rw [Option.some.injEq]
      constructor
      · rintro rfl
        exact ⟨by omega, by omega, hmiddle⟩
      · rintro ⟨_, _, hplace⟩
        have hlength := (List.getElem?_eq_some_iff.mp hmiddle).1
        exact (List.getElem?_inj hlength hascending.sortedLT.nodup).mp (hmiddle.trans hplace.symm)
  | case5 low high hempty =>
      refine iff_of_false (by simp) ?_
      omega

theorem place?_eq_some_iff (hascending : dates.Pairwise (· < ·)) :
    place? dates date = some place ↔ dates[place]? = some date := by
  rw [place?, placeBetween?_eq_some_iff hascending (Nat.le_refl _)]
  constructor
  · exact fun hplace => hplace.2.2
  · intro hplace
    exact ⟨Nat.zero_le _, (List.getElem?_eq_some_iff.mp hplace).1, hplace⟩

end Halving

variable {series : Series β} {date : Date}

theorem length_dates_eq (series : Series β) : series.dates.length = series.values.length := by
  simp [dates, values]

/-- On the date at a place the series has the value at this place. -/
theorem get?_of_place {place : Nat} (hplace : series.dates[place]? = some date) :
    ∃ value, series.values[place]? = some value ∧ series.get? date = some value := by
  rw [dates, List.getElem?_map, Option.map_eq_some_iff] at hplace
  obtain ⟨⟨_, value⟩, hentry, rfl⟩ := hplace
  refine ⟨value, ?_, get?_eq_some_iff.mpr (List.mem_of_getElem? hentry)⟩
  rw [values, List.getElem?_map, hentry]
  rfl

theorem get?_eq_place? (series : Series β) (date : Date) :
    series.get? date = (place? series.dates date).bind (series.values[·]?) := by
  have hascending : series.dates.Pairwise (· < ·) := series.ascending
  cases hplace : place? series.dates date with
  | none =>
      refine get?_eq_none_iff.mpr fun hdate => ?_
      obtain ⟨place, hdate⟩ := List.getElem?_of_mem hdate
      rw [(place?_eq_some_iff hascending).mpr hdate] at hplace
      cases hplace
  | some place =>
      obtain ⟨value, hvalue, hget⟩ := get?_of_place ((place?_eq_some_iff hascending).mp hplace)
      rw [hget, Option.bind_some, hvalue]

/-- Every date has the value at its own place, which halving finds, and other dates have none. -/
structure Faithful (series : Series β) : Prop where
  length_eq : series.dates.length = series.values.length
  ascending : series.dates.Pairwise (· < ·)
  present : ∀ (place : Nat) date, series.dates[place]? = some date →
    ∃ value, series.values[place]? = some value ∧ series.get? date = some value
  absent : ∀ date, date ∉ series.dates → series.get? date = none
  halving : ∀ date, series.get? date = (place? series.dates date).bind (series.values[·]?)

theorem faithful (series : Series β) : series.Faithful where
  length_eq := series.length_dates_eq
  ascending := series.ascending
  present _ _ := get?_of_place
  absent _ := get?_eq_none_iff.mpr
  halving := series.get?_eq_place?

/-! ### Intersection -/

/-- The dates are those that all series of the family have, in ascending order. -/
structure AreCommon (family : List (Series β)) (dates : List Date) : Prop where
  ascending : dates.Pairwise (· < ·)
  mem_iff : ∀ date, date ∈ dates ↔ ∀ series ∈ family, date ∈ series.dates

/-- The set of dates that is left when one series after the other is intersected with the first. -/
def intersection : List (Series β) → Finset Date
  | [] => ∅
  | first :: others =>
    others.foldl (fun common series => common ∩ series.dates.toFinset) first.dates.toFinset

variable {family : List (Series β)} {dates dates' : List Date}

theorem AreCommon.unique (hdates : AreCommon family dates) (hdates' : AreCommon family dates') :
    dates = dates' :=
  hdates.ascending.eq_of_mem_iff hdates'.ascending fun date =>
    (hdates.mem_iff date).trans (hdates'.mem_iff date).symm

theorem areCommon_commonAxis (hsome : family ≠ []) : AreCommon family (commonAxis family).dates :=
  ⟨(commonAxis family).ascending, fun _ => mem_commonAxis_iff hsome⟩

theorem mem_foldl_inter_iff (others : List (Series β)) (common : Finset Date) :
    date ∈ others.foldl (fun common series => common ∩ series.dates.toFinset) common ↔
      date ∈ common ∧ ∀ series ∈ others, date ∈ series.dates := by
  induction others generalizing common with
  | nil => simp
  | cons series others ih =>
      rw [List.foldl_cons, ih, Finset.mem_inter, List.mem_toFinset, List.forall_mem_cons, and_assoc]

theorem areCommon_intersection (hsome : family ≠ []) :
    AreCommon family ((intersection family).sort (· ≤ ·)) := by
  refine ⟨(Finset.sortedLT_sort _).pairwise, fun date => ?_⟩
  cases family with
  | nil => exact absurd rfl hsome
  | cons first others =>
      rw [Finset.mem_sort, intersection, mem_foldl_inter_iff, List.mem_toFinset, List.forall_mem_cons]

/-- **Look-up and intersection are exact.** Two lists are a series when they have one length and the
dates ascend throughout, and `map` keeps the dates. Look-up in any series gives the value at the place
of the date, which halving finds, and nothing for other dates. The common axis of some series has the
dates that all of them have, once each and in order, however the series are ordered, and is what one
intersection after the other leaves. -/
theorem lookup_and_common_dates {β γ : Type} :
    (∀ dates (values : List β), (∃ series, ofLists dates values = .ok series) ↔
      dates.length = values.length ∧ dates.Pairwise (· < ·)) ∧
    (∀ dates (values : List β) series, ofLists dates values = .ok series →
      series.dates = dates ∧ series.values = values) ∧
    (∀ (series : Series β) (f : β → γ),
      (series.map f).dates = series.dates ∧ (series.map f).values = series.values.map f) ∧
    (∀ series : Series β, series.Faithful) ∧
    ∀ family : List (Series β), family ≠ [] →
      AreCommon family (commonAxis family).dates ∧
      (∀ dates, AreCommon family dates → dates = (commonAxis family).dates) ∧
      (∀ other, other.Perm family → commonAxis other = commonAxis family) ∧
      (intersection family).sort (· ≤ ·) = (commonAxis family).dates := by
  refine ⟨fun _ _ => exists_ofLists_iff,
    fun dates values series hseries => ⟨dates_of_ofLists hseries, values_of_ofLists hseries⟩,
    fun series f => ⟨dates_map f series, values_map f series⟩, faithful, fun family hsome => ?_⟩
  have hcommon := areCommon_commonAxis hsome
  exact ⟨hcommon, fun dates hdates => hdates.unique hcommon, fun other => commonAxis_perm,
    (areCommon_intersection hsome).unique hcommon⟩

namespace Sample

def opens : Series Nat := ⟨[(⟨1⟩, 10), (⟨3⟩, 30), (⟨7⟩, 70)], by decide⟩

def closes : Series Nat := ⟨[(⟨2⟩, 20), (⟨3⟩, 31), (⟨7⟩, 71)], by decide⟩

end Sample

theorem lookup_and_common_dates_sample :
    (∃ series, ofLists [⟨1⟩, ⟨3⟩, ⟨7⟩] [10, 30, 70] = .ok series) ∧
      (¬∃ series, ofLists [⟨3⟩, ⟨3⟩] [10, 30] = .ok series) ∧
      Sample.opens.get? ⟨3⟩ = some 30 ∧ Sample.opens.get? ⟨2⟩ = none ∧
      [Sample.opens, Sample.closes] ≠ [] ∧
      ⟨3⟩ ∈ (commonAxis [Sample.opens, Sample.closes]).dates ∧
      ⟨1⟩ ∉ (commonAxis [Sample.opens, Sample.closes]).dates ∧
      commonAxis [Sample.closes, Sample.opens] = commonAxis [Sample.opens, Sample.closes] := by
  obtain ⟨haccepted, _, _, hfaithful, hfamily⟩ := @lookup_and_common_dates Nat Nat
  obtain ⟨value, hvalue, hpresent⟩ := (hfaithful Sample.opens).present 1 ⟨3⟩ rfl
  cases hvalue
  have hsome : [Sample.opens, Sample.closes] ≠ [] := List.cons_ne_nil _ _
  obtain ⟨hcommon, _, hperm, _⟩ := hfamily [Sample.opens, Sample.closes] hsome
  refine ⟨(haccepted _ _).mpr (by decide), fun hseries => ?_, hpresent,
    (hfaithful Sample.opens).absent _ (by decide), hsome, (hcommon.mem_iff _).mpr (by decide),
    fun hdate => ?_, hperm _ (.swap ..)⟩
  · exact absurd ((haccepted _ _).mp hseries).2 (by decide)
  · exact absurd ((hcommon.mem_iff _).mp hdate) (by decide)

end Backtest.Series
