import Backtest.Calendar.Date

/-!
# Series

A series gives a value to each of some dates. Its dates ascend strictly, so no date has two values
and a series is determined by its look-up. An axis is the dates alone; series are combined on the
axis of the dates they share.
-/

namespace Backtest

structure Axis where
  dates : List Date
  ascending : dates.Pairwise (· < ·)
deriving DecidableEq

structure Series (β : Type) where
  entries : List (Date × β)
  ascending : (entries.map Prod.fst).Pairwise (· < ·)

/-- The first two neighbours that do not ascend. -/
def firstDescent? : List Date → Option (Date × Date)
  | first :: second :: rest =>
    if first < second then firstDescent? (second :: rest) else some (first, second)
  | _ => none

theorem pairwise_of_firstDescent?_eq_none {dates : List Date} (h : firstDescent? dates = none) :
    dates.Pairwise (· < ·) := by
  induction dates with
  | nil => exact .nil
  | cons first rest ih =>
    cases rest with
    | nil => simp
    | cons second rest =>
      by_cases hlt : first < second
      · have htail : (second :: rest).Pairwise (· < ·) := ih (by simpa [firstDescent?, hlt] using h)
        refine List.pairwise_cons.mpr ⟨fun date hdate => ?_, htail⟩
        rcases List.mem_cons.mp hdate with rfl | hdate
        · exact hlt
        · exact Date.lt_trans hlt ((List.pairwise_cons.mp htail).1 date hdate)
      · simp [firstDescent?, hlt] at h

namespace Series

variable {β γ δ : Type}

theorem ext_entries {left right : Series β} (hentries : left.entries = right.entries) :
    left = right := by
  cases left
  cases right
  cases hentries
  rfl

def dates (series : Series β) : List Date := series.entries.map Prod.fst

def values (series : Series β) : List β := series.entries.map Prod.snd

def size (series : Series β) : Nat := series.entries.length

def isEmpty (series : Series β) : Bool := series.entries.isEmpty

def axis (series : Series β) : Axis := ⟨series.dates, series.ascending⟩

/-- The value on a date, if the series has one. -/
def get? (series : Series β) (date : Date) : Option β := series.entries.lookup date

/-- A list of dates and a list of values are not a series. -/
inductive Fault
  | length (dates values : Nat)
  | order (first second : Date)
deriving DecidableEq, Repr

theorem ascending_zip {dates : List Date} (values : List β) (h : dates.Pairwise (· < ·)) :
    ((dates.zip values).map Prod.fst).Pairwise (· < ·) := by
  induction dates generalizing values with
  | nil => simp
  | cons first rest ih =>
    cases values with
    | nil => simp
    | cons value values =>
      obtain ⟨hfirst, hrest⟩ := List.pairwise_cons.mp h
      refine List.pairwise_cons.mpr ⟨fun date hdate => ?_, ih values hrest⟩
      obtain ⟨entry, hentry, rfl⟩ := List.mem_map.mp hdate
      exact hfirst _ (List.of_mem_zip hentry).1

/-- Pairs dates with values. Lists of different lengths are refused first, then the first two
neighbouring dates that do not ascend. -/
def ofLists (dates : List Date) (values : List β) : Except Fault (Series β) :=
  if dates.length ≠ values.length then .error (.length dates.length values.length)
  else
    match h : firstDescent? dates with
    | some (first, second) => .error (.order first second)
    | none => .ok ⟨dates.zip values, ascending_zip values (pairwise_of_firstDescent?_eq_none h)⟩

def map (f : β → γ) (series : Series β) : Series γ where
  entries := series.entries.map fun (date, value) => (date, f value)
  ascending := by simpa [List.map_map, Function.comp_def] using series.ascending

@[simp]
theorem dates_map (f : β → γ) (series : Series β) : (series.map f).dates = series.dates := by
  simp [map, dates, Function.comp_def]

@[simp]
theorem values_map (f : β → γ) (series : Series β) :
    (series.map f).values = series.values.map f := by
  simp [map, values, Function.comp_def]

/-- The two series have the same dates. -/
def sameAxis (left : Series β) (right : Series γ) : Bool := left.dates = right.dates

/-- Combines the values that stand at the same place; it is used on series of one axis. -/
def zipWith (f : β → γ → δ) (left : Series β) (right : Series γ) : Series δ where
  entries := left.dates.zip (left.values.zipWith f right.values)
  ascending := ascending_zip _ left.ascending

/-- The series that takes a function's value on every date of an axis. -/
def onAxis (axis : Axis) (f : Date → β) : Series β where
  entries := axis.dates.map fun date => (date, f date)
  ascending := by simpa [List.map_map, Function.comp_def] using axis.ascending

@[simp]
theorem dates_onAxis (axis : Axis) (f : Date → β) : (onAxis axis f).dates = axis.dates := by
  simp [onAxis, dates, Function.comp_def]

/-- The states that a machine passes through when it reads the values in order, each standing on the
date of the value that led to it. -/
def scanEntries (step : γ → β → γ) (state : γ) : List (Date × β) → List (Date × γ)
  | [] => []
  | (date, value) :: rest =>
    (date, step state value) :: scanEntries step (step state value) rest

theorem dates_scanEntries (step : γ → β → γ) (state : γ) (entries : List (Date × β)) :
    (scanEntries step state entries).map Prod.fst = entries.map Prod.fst := by
  induction entries generalizing state with
  | nil => rfl
  | cons entry rest ih => simp [scanEntries, ih]

def scan (step : γ → β → γ) (start : γ) (series : Series β) : Series γ where
  entries := scanEntries step start series.entries
  ascending := by
    rw [dates_scanEntries]
    exact series.ascending

@[simp]
theorem dates_scan (step : γ → β → γ) (start : γ) (series : Series β) :
    (series.scan step start).dates = series.dates :=
  dates_scanEntries step start series.entries

/-- The dates that every series has. No series at all has none. -/
def commonAxis : List (Series β) → Axis
  | [] => ⟨[], .nil⟩
  | first :: others =>
    { dates := first.dates.filter fun date => others.all fun other => (other.get? date).isSome
      ascending := first.ascending.sublist List.filter_sublist }

end Series

end Backtest
