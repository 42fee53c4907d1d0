import Mathlib.Data.List.Forall2
import Backtest.Proofs.Lookup

/-!
# Series compared date by date

Two series of the same dates can be related value by value. Every operation on series carries such a
relation on, if the functions that it applies do; one that carries a state from date to date relates the
states as well.
-/

namespace Backtest

/-- Two lists read alike when they do so item by item. -/
theorem map_eq_map_iff_forall₂ {β γ δ : Type} {f : β → δ} {g : γ → δ} {left : List β} {right : List γ} :
    left.map f = right.map g ↔ List.Forall₂ (fun first second => f first = g second) left right := by
  rw [← List.forall₂_eq_eq_eq, List.forall₂_map_left_iff, List.forall₂_map_right_iff]

theorem map_eq_iff_forall₂ {β γ : Type} {f : β → γ} {left : List β} {right : List γ} :
    left.map f = right ↔ List.Forall₂ (fun first second => f first = second) left right := by
  rw [← List.forall₂_eq_eq_eq, List.forall₂_map_left_iff]

namespace Series

variable {β γ δ ε : Type} {R : β → γ → Prop} {S : δ → ε → Prop}

/-- The series have the same dates and related values on each of them. -/
def Pointwise (R : β → γ → Prop) (left : Series β) (right : Series γ) : Prop :=
  List.Forall₂ (fun first second => first.1 = second.1 ∧ R first.2 second.2) left.entries right.entries

instance [∀ value other, Decidable (R value other)] (left : Series β) (right : Series γ) :
    Decidable (left.Pointwise R right) :=
  inferInstanceAs (Decidable (List.Forall₂ _ _ _))

namespace Pointwise

variable {left : Series β} {right : Series γ}

theorem dates_eq (hseries : left.Pointwise R right) : left.dates = right.dates :=
  map_eq_map_iff_forall₂.mpr (hseries.imp fun _ _ hentries => hentries.1)

theorem eq {left right : Series β} (hseries : left.Pointwise (· = ·) right) : left = right := by
  refine ext_entries (List.forall₂_eq_eq_eq ▸ hseries.imp fun first second hentries => ?_)
  exact Prod.ext hentries.1 hentries.2

theorem map {f : β → δ} {g : γ → ε} (hseries : left.Pointwise R right)
    (hvalues : ∀ value other, R value other → S (f value) (g other)) :
    (left.map f).Pointwise S (right.map g) := by
  rw [Pointwise, Series.map, Series.map, List.forall₂_map_left_iff, List.forall₂_map_right_iff]
  exact hseries.imp fun _ _ hentries => ⟨hentries.1, hvalues _ _ hentries.2⟩

theorem scanEntries {step : δ → β → δ} {step' : ε → γ → ε}
    (hstep : ∀ state state' value value', S state state' → R value value' →
      S (step state value) (step' state' value'))
    {entries : List (Date × β)} {entries' : List (Date × γ)}
    (hentries : List.Forall₂ (fun first second => first.1 = second.1 ∧ R first.2 second.2) entries entries')
    {state : δ} {state' : ε} (hstate : S state state') :
    List.Forall₂ (fun first second => first.1 = second.1 ∧ S first.2 second.2)
      (Series.scanEntries step state entries) (Series.scanEntries step' state' entries') := by
  induction hentries generalizing state state' with
  | nil => exact .nil
  | cons hentry _ ih =>
      have hnext := hstep _ _ _ _ hstate hentry.2
      exact .cons ⟨hentry.1, hnext⟩ (ih hnext)

/-- The states of two machines stay related when every step keeps them so. -/
theorem scan {step : δ → β → δ} {step' : ε → γ → ε} (hseries : left.Pointwise R right)
    (hstep : ∀ state state' value value', S state state' → R value value' →
      S (step state value) (step' state' value'))
    {start : δ} {start' : ε} (hstart : S start start') :
    (left.scan step start).Pointwise S (right.scan step' start') :=
  scanEntries hstep hseries hstart

theorem lookup {entries : List (Date × β)} {entries' : List (Date × γ)}
    (hentries : List.Forall₂ (fun first second => first.1 = second.1 ∧ R first.2 second.2) entries entries')
    (date : Date) : Option.Rel R (entries.lookup date) (entries'.lookup date) := by
  induction hentries with
  | nil => exact .none
  | @cons first second rest rest' hentry _ ih =>
      obtain ⟨day, value⟩ := first
      obtain ⟨day', value'⟩ := second
      obtain ⟨rfl, hvalue⟩ := hentry
      by_cases hsame : date = day
      · subst hsame
        simpa using Option.Rel.some hvalue
      · have hne : (date == day) = false := by simpa using hsame
        simpa only [List.lookup_cons, hne] using ih

theorem get? (hseries : left.Pointwise R right) (date : Date) :
    Option.Rel R (left.get? date) (right.get? date) :=
  lookup hseries date

/-- A default that is related to itself may stand in on the other dates. -/
theorem getD_get? {R : β → β → Prop} {left right : Series β} (hseries : left.Pointwise R right)
    {default : β} (hdefault : R default default) (date : Date) :
    R ((left.get? date).getD default) ((right.get? date).getD default) := by
  have hfound := hseries.get? date
  generalize left.get? date = found, right.get? date = found' at hfound
  cases hfound with
  | none => exact hdefault
  | some hvalue => exact hvalue

/-- On a date on which one series has a value, the other one has a related value. -/
theorem exists_of_get? (hseries : left.Pointwise R right) {date : Date} {value : β}
    (hvalue : left.get? date = some value) : ∃ other, right.get? date = some other ∧ R value other := by
  have hfound := hseries.get? date
  rw [hvalue] at hfound
  cases hother : right.get? date with
  | none =>
      rw [hother] at hfound
      cases hfound
  | some other =>
      rw [hother] at hfound
      cases hfound with
      | some hrel => exact ⟨other, rfl, hrel⟩

theorem map_eq {f : β → γ} (hseries : left.Pointwise (fun value other => f value = other) right) :
    left.map f = right := by
  apply Pointwise.eq
  rw [Pointwise, Series.map, List.forall₂_map_left_iff]
  exact hseries

end Pointwise

theorem pointwise_map {f : β → γ} (hvalues : ∀ value, R value (f value)) (series : Series β) :
    series.Pointwise R (series.map f) := by
  rw [Pointwise, Series.map, List.forall₂_map_right_iff, List.forall₂_same]
  exact fun entry _ => ⟨rfl, hvalues entry.2⟩

theorem pointwise_scanEntries {step : γ → β → γ} (hstep : ∀ state value, R value (step state value))
    (state : γ) (entries : List (Date × β)) :
    List.Forall₂ (fun first second => first.1 = second.1 ∧ R first.2 second.2) entries
      (Series.scanEntries step state entries) := by
  induction entries generalizing state with
  | nil => exact .nil
  | cons entry rest ih => exact .cons ⟨rfl, hstep state entry.2⟩ (ih (step state entry.2))

/-- A machine whose every state suits the value that led to it, whatever state came before. -/
theorem pointwise_scan {step : γ → β → γ} (hstep : ∀ state value, R value (step state value))
    (start : γ) (series : Series β) : series.Pointwise R (series.scan step start) :=
  pointwise_scanEntries hstep start series.entries

/-! ### Operations that commute -/

theorem map_map (f : β → γ) (g : γ → δ) (series : Series β) :
    (series.map f).map g = series.map (g ∘ f) :=
  ext_entries List.map_map

theorem map_comm {f : β → γ} {g : β → δ} {p : γ → ε} {q : δ → ε}
    (hvalues : ∀ value, p (f value) = q (g value)) (series : Series β) :
    (series.map f).map p = (series.map g).map q := by
  rw [map_map, map_map]
  exact congrArg series.map (funext hvalues)

/-- A machine that makes the same steps under other names for its values and its states. -/
theorem scan_comm {step : γ → β → γ} {step' : ε → δ → ε} {f : β → δ} {g : γ → ε}
    (hstep : ∀ state value, g (step state value) = step' (g state) (f value)) (start : γ)
    (series : Series β) : (series.scan step start).map g = (series.map f).scan step' (g start) := by
  have hvalues : series.Pointwise (fun value other => f value = other) (series.map f) :=
    pointwise_map (fun _ => rfl) series
  refine (hvalues.scan (S := fun state other => g state = other) ?_ rfl).map_eq
  rintro state _ value _ rfl rfl
  exact hstep state value

/-! ### Axes -/

theorem get?_onAxis {f : Date → β} {axis : Axis} {date : Date} (hdate : date ∈ axis.dates) :
    (onAxis axis f).get? date = some (f date) := by
  rw [get?_eq_some_iff]
  exact List.mem_map_of_mem hdate

theorem values_onAxis (axis : Axis) (f : Date → β) : (onAxis axis f).values = axis.dates.map f := by
  simp [onAxis, values, Function.comp_def]

theorem map_onAxis (g : β → γ) (axis : Axis) (f : Date → β) :
    (onAxis axis f).map g = onAxis axis (g ∘ f) :=
  ext_entries List.map_map

theorem pointwise_onAxis {f : Date → β} {g : Date → γ} {axis : Axis}
    (hvalues : ∀ date ∈ axis.dates, R (f date) (g date)) :
    (onAxis axis f).Pointwise R (onAxis axis g) := by
  rw [Pointwise, onAxis, onAxis, List.forall₂_map_left_iff, List.forall₂_map_right_iff,
    List.forall₂_same]
  exact fun date hdate => ⟨rfl, hvalues date hdate⟩

theorem onAxis_congr {f g : Date → β} {axis : Axis} (hvalues : ∀ date ∈ axis.dates, f date = g date) :
    onAxis axis f = onAxis axis g :=
  (pointwise_onAxis hvalues).eq

/-! ### Common axes -/

/-- The dates that all series have depend on nothing but their dates. -/
theorem commonAxis_congr {family : List (Series β)} {family' : List (Series γ)}
    (hfamilies : List.Forall₂ (fun series other => series.dates = other.dates) family family') :
    commonAxis family = commonAxis family' := by
  cases hfamilies with
  | nil => rfl
  | @cons first first' others others' hfirst hothers =>
      have hall (date : Date) : (others.all fun other => (other.get? date).isSome) =
          others'.all fun other => (other.get? date).isSome := by
        induction hothers with
        | nil => rfl
        | cons hdates _ ih =>
            rw [List.all_cons, List.all_cons, ih, Bool.eq_iff_iff]
            simp only [Bool.and_eq_true, isSome_get?_iff, hdates]
      simp only [commonAxis, hfirst, hall]

end Series

end Backtest
