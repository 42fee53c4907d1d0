import Mathlib.Data.List.Forall2

/-!
# Stages that can fail

A result of several stages is a result of the first one, from which the others go on. A list of stages
gives the list of their results.
-/

namespace Backtest

variable {ε β γ δ : Type}

theorem bind_eq_ok_iff {first : Except ε β} {next : β → Except ε γ} {result : γ} :
    first >>= next = .ok result ↔ ∃ value, first = .ok value ∧ next value = .ok result := by
  cases first with
  | error fault => simp [bind, Except.bind]
  | ok value => simp [bind, Except.bind]

theorem bind_eq_error_iff {first : Except ε β} {next : β → Except ε γ} {fault : ε} :
    first >>= next = .error fault ↔
      first = .error fault ∨ ∃ value, first = .ok value ∧ next value = .error fault := by
  cases first with
  | error refusal => simp [bind, Except.bind]
  | ok value => simp [bind, Except.bind]

theorem ok_bind (value : β) (next : β → Except ε γ) : (Except.ok value >>= next) = next value := rfl

theorem error_bind (fault : ε) (next : β → Except ε γ) :
    (Except.error fault >>= next) = .error fault := rfl

theorem map_eq_ok_iff {f : β → γ} {first : Except ε β} {result : γ} :
    f <$> first = .ok result ↔ ∃ value, first = .ok value ∧ f value = result := by
  cases first with
  | error fault => simp [Functor.map, Except.map]
  | ok value => simp [Functor.map, Except.map]

theorem map_eq_error_iff {f : β → γ} {first : Except ε β} {fault : ε} :
    f <$> first = .error fault ↔ first = .error fault := by
  cases first with
  | error refusal => simp [Functor.map, Except.map]
  | ok value => simp [Functor.map, Except.map]

theorem mapError_eq_ok_iff {change : ε → δ} {first : Except ε β} {result : β} :
    first.mapError change = .ok result ↔ first = .ok result := by
  cases first with
  | error fault => simp [Except.mapError]
  | ok value => simp [Except.mapError]

theorem pure_eq_ok_iff {value result : β} : (pure value : Except ε β) = .ok result ↔ value = result := by
  simp [pure, Except.pure]

/-- There is a result, and it passes a test. -/
def succeedsWith (test : β → Bool) : Except ε β → Bool
  | .ok value => test value
  | .error _ => false

theorem exists_of_succeedsWith {test : β → Bool} {result : Except ε β}
    (hsucceeds : succeedsWith test result = true) : ∃ value, result = .ok value ∧ test value = true := by
  cases result with
  | error fault => cases hsucceeds
  | ok value => exact ⟨value, rfl, hsucceeds⟩

/-! ### Checks on the way -/

section Checks

variable {p : Prop} [Decidable p] {fault : ε} {next : Except ε β} {result : β}

theorem refuse_eq_ok_iff : (if p then throw fault else next) = .ok result ↔ ¬p ∧ next = .ok result := by
  by_cases hp : p
  · rw [if_pos hp]
    exact iff_of_false (fun hthrow => nomatch hthrow) fun hboth => hboth.1 hp
  · rw [if_neg hp]
    exact (and_iff_right hp).symm

/-- The form that a check takes when more follows it. -/
theorem refuse_bind_eq_ok_iff :
    (if p then throw fault >>= fun _ : PUnit => next else next) = .ok result ↔
      ¬p ∧ next = .ok result :=
  refuse_eq_ok_iff

theorem only_if_eq_ok_iff {check : Except ε PUnit} :
    (if p then check else pure ()) = .ok () ↔ (p → check = .ok ()) := by
  by_cases hp : p
  · rw [if_pos hp]
    exact ⟨fun hcheck _ => hcheck, fun hcheck => hcheck hp⟩
  · rw [if_neg hp]
    exact iff_of_true rfl fun hholds => absurd hholds hp

end Checks

/-! ### Lists of stages -/

theorem forM_eq_ok_iff {f : β → Except ε PUnit} {items : List β} :
    items.forM f = .ok () ↔ ∀ item ∈ items, f item = .ok () := by
  induction items with
  | nil => exact iff_of_true rfl (by simp)
  | cons item rest ih =>
      rw [List.forM, bind_eq_ok_iff, List.forall_mem_cons]
      constructor
      · rintro ⟨_, hitem, hrest⟩
        exact ⟨hitem, ih.mp hrest⟩
      · rintro ⟨hitem, hrest⟩
        exact ⟨(), hitem, ih.mpr hrest⟩

theorem mapM_eq_ok_iff {f : β → Except ε γ} {items : List β} {values : List γ} :
    items.mapM f = .ok values ↔ List.Forall₂ (fun item value => f item = .ok value) items values := by
  induction items generalizing values with
  | nil =>
      rw [List.mapM_nil, pure_eq_ok_iff, List.forall₂_nil_left_iff, eq_comm]
  | cons item rest ih =>
      rw [List.mapM_cons, List.forall₂_cons_left_iff]
      simp only [bind_eq_ok_iff, pure_eq_ok_iff, ih]
      constructor
      · rintro ⟨value, hvalue, others, hothers, rfl⟩
        exact ⟨value, others, hvalue, hothers, rfl⟩
      · rintro ⟨value, others, hvalue, hothers, rfl⟩
        exact ⟨value, hvalue, others, hothers, rfl⟩

/-- A list has a related one when each of its items has a related item. -/
theorem exists_forall₂_iff {R : β → γ → Prop} {items : List β} :
    (∃ values, List.Forall₂ R items values) ↔ ∀ item ∈ items, ∃ value, R item value := by
  induction items with
  | nil => simp
  | cons item rest ih =>
      rw [List.forall_mem_cons, ← ih]
      simp only [List.forall₂_cons_left_iff]
      constructor
      · rintro ⟨_, value, others, hvalue, hothers, rfl⟩
        exact ⟨⟨value, hvalue⟩, others, hothers⟩
      · rintro ⟨⟨value, hvalue⟩, others, hothers⟩
        exact ⟨_, value, others, hvalue, hothers, rfl⟩

theorem exists_rel_of_mem {R : β → γ → Prop} {items : List β} {values : List γ}
    (hvalues : List.Forall₂ R items values) {item : β} (hitem : item ∈ items) :
    ∃ value ∈ values, R item value := by
  induction hvalues with
  | nil => cases hitem
  | @cons first value rest others hfirst _ ih =>
      rcases List.mem_cons.mp hitem with rfl | hrest
      · exact ⟨value, List.mem_cons_self, hfirst⟩
      · obtain ⟨other, hother, hrel⟩ := ih hrest
        exact ⟨other, List.mem_cons_of_mem _ hother, hrel⟩

theorem exists_mapM_eq_ok_iff {f : β → Except ε γ} {items : List β} :
    (∃ values, items.mapM f = .ok values) ↔ ∀ item ∈ items, ∃ value, f item = .ok value := by
  simp only [mapM_eq_ok_iff, exists_forall₂_iff]

/-- Stages whose results are changed by `change` give the changed list. -/
theorem mapM_eq_ok_of_forall {f : δ → Except ε β} {g : δ → Except ε γ} {change : β → γ}
    (hchange : ∀ item value, f item = .ok value → g item = .ok (change value)) {items : List δ}
    {values : List β} (hvalues : items.mapM f = .ok values) :
    items.mapM g = .ok (values.map change) := by
  induction items generalizing values with
  | nil =>
      cases hvalues
      rfl
  | cons item rest ih =>
      rw [List.mapM_cons] at hvalues ⊢
      obtain ⟨value, hvalue, hothers⟩ := bind_eq_ok_iff.mp hvalues
      obtain ⟨others, hrest, hresult⟩ := bind_eq_ok_iff.mp hothers
      cases hresult
      rw [hchange item value hvalue, ih hrest]
      rfl

end Backtest
