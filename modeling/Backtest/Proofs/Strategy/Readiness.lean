import Backtest.Proofs.Condition.Evaluation
import Backtest.Proofs.Strategy.Cutoff

/-!
# Strategies that have positions

Over conditions with common dates a strategy has positions exactly when it gives the formulas that its
kind needs and these can be read. The other formulas it may give have no part in it. Its positions
stand on the dates of the conditions.
-/

namespace Backtest.Strategy

variable {conditions : ConditionSet} {dates : List Date} {strategy : Strategy}

/-- The strategy gives the formulas without which a strategy of its kind has no positions. -/
structure Complete (strategy : Strategy) : Prop where
  entry : (Text.nonBlank? strategy.long).isSome = true ∨
    strategy.kind = .longCash ∧ (Text.nonBlank? strategy.expression).isSome = true
  short : strategy.kind = .longShort → (Text.nonBlank? strategy.short).isSome = true

/-- The formulas that the positions depend on. -/
def usedFormulas (strategy : Strategy) : List String :=
  match strategy.kind, Text.nonBlank? strategy.long with
  | .longCash, none => (Text.nonBlank? strategy.expression).toList
  | .longCash, some long => long :: (Text.nonBlank? strategy.cash).toList
  | .longShort, long => long.toList ++ (Text.nonBlank? strategy.short).toList

structure Ready (available : List String) (strategy : Strategy) : Prop where
  complete : strategy.Complete
  readable : ∀ text ∈ strategy.usedFormulas, ∃ condition, Condition.parse available text = .ok condition

/-- The result is positions on the dates if the texts are formulas over the names, and otherwise an
error. -/
structure Decides (available : List String) (dates : List Date) (texts : List String)
    (result : Except Error (Series Position)) : Prop where
  ok_iff : (∃ positions, result = .ok positions) ↔
    ∀ text ∈ texts, ∃ condition, Condition.parse available text = .ok condition
  dates_eq : ∀ positions, result = .ok positions → positions.dates = dates

/-! ### Rules of one and of two formulas -/

theorem longWhere_decides (haligned : conditions.Aligned dates) (text : String) :
    Decides conditions.names dates [text]
      (Condition.evalText conditions text >>= fun entry => .ok (longWhere entry)) := by
  refine ⟨?_, fun positions hpositions => ?_⟩
  · rw [List.forall_mem_singleton, ← Condition.exists_evalText_iff haligned]
    constructor
    · rintro ⟨positions, hpositions⟩
      obtain ⟨entry, hentry, _⟩ := bind_eq_ok_iff.mp hpositions
      exact ⟨entry, hentry⟩
    · rintro ⟨entry, hentry⟩
      exact ⟨_, bind_eq_ok_iff.mpr ⟨entry, hentry, rfl⟩⟩
  · obtain ⟨entry, hentry, hresult⟩ := bind_eq_ok_iff.mp hpositions
    cases hresult
    rw [longWhere, Series.dates_map]
    exact Condition.dates_of_evalText haligned hentry

/-- The two formulas have values on common dates, so joining them never fails. -/
theorem join_decides {refusal : Error} {change : Bool → Bool → Position}
    {join : Series Bool → Series Bool → Except Error (Series Position)}
    (hjoin : ∀ left right, join left right =
      if left.sameAxis right then .ok (left.zipWith change right) else .error refusal)
    (haligned : conditions.Aligned dates) (first second : String) :
    Decides conditions.names dates [first, second]
      (Condition.evalText conditions first >>= fun entry =>
        Condition.evalText conditions second >>= join entry) := by
  have hjoined : ∀ {left right : Series Bool}, left.dates = dates → right.dates = dates →
      join left right = .ok (left.zipWith change right) := by
    intro left right hleft hright
    rw [hjoin]
    exact if_pos (decide_eq_true (hleft.trans hright.symm))
  refine ⟨?_, fun positions hpositions => ?_⟩
  · rw [List.forall_mem_cons, List.forall_mem_singleton, ← Condition.exists_evalText_iff haligned,
      ← Condition.exists_evalText_iff haligned]
    constructor
    · rintro ⟨positions, hpositions⟩
      obtain ⟨entry, hentry, hrest⟩ := bind_eq_ok_iff.mp hpositions
      obtain ⟨other, hother, _⟩ := bind_eq_ok_iff.mp hrest
      exact ⟨⟨entry, hentry⟩, other, hother⟩
    · rintro ⟨⟨entry, hentry⟩, other, hother⟩
      have hpositions := hjoined (Condition.dates_of_evalText haligned hentry)
        (Condition.dates_of_evalText haligned hother)
      exact ⟨_, bind_eq_ok_iff.mpr ⟨entry, hentry, bind_eq_ok_iff.mpr ⟨other, hother, hpositions⟩⟩⟩
  · obtain ⟨entry, hentry, hrest⟩ := bind_eq_ok_iff.mp hpositions
    obtain ⟨other, hother, hresult⟩ := bind_eq_ok_iff.mp hrest
    have hfirst := Condition.dates_of_evalText haligned hentry
    have hsecond := Condition.dates_of_evalText haligned hother
    rw [hjoined hfirst hsecond] at hresult
    cases hresult
    rw [Series.dates_zipWith change (hfirst.trans hsecond.symm), hfirst]

/-! ### Positions -/

theorem complete_iff : strategy.Complete ↔
    ((Text.nonBlank? strategy.long).isSome = true ∨
      strategy.kind = .longCash ∧ (Text.nonBlank? strategy.expression).isSome = true) ∧
      (strategy.kind = .longShort → (Text.nonBlank? strategy.short).isSome = true) :=
  ⟨fun hcomplete => ⟨hcomplete.entry, hcomplete.short⟩, fun hboth => ⟨hboth.1, hboth.2⟩⟩

theorem not_complete_of_none (hlong : Text.nonBlank? strategy.long = none)
    (hother : strategy.kind = .longShort ∨ Text.nonBlank? strategy.expression = none) :
    ¬strategy.Complete := by
  rintro ⟨hentry, _⟩
  rcases hentry with hsome | ⟨hkind, hsome⟩
  · simp [hlong] at hsome
  · rcases hother with hshort | hnone
    · rw [hkind] at hshort
      cases hshort
    · simp [hnone] at hsome

/-- A strategy without a formula that its kind needs has no positions. -/
theorem complete_of_positions {positions : Series Position}
    (hpositions : strategy.positions conditions = .ok positions) : strategy.Complete := by
  rw [positions_eq] at hpositions
  cases hentry : strategy.entryText? with
  | none =>
      rw [hentry] at hpositions
      cases hpositions
  | some text =>
      rw [hentry] at hpositions
      obtain ⟨entry, _, hrest⟩ := bind_eq_ok_iff.mp hpositions
      unfold positionsFrom at hrest
      cases hlong : Text.nonBlank? strategy.long with
      | none =>
          have hexpression := (entryText?_of_none hlong).symm.trans hentry
          cases hkind : strategy.kind with
          | longCash => exact ⟨Or.inr ⟨hkind, by rw [hexpression]; rfl⟩, by simp [hkind]⟩
          | longShort =>
              simp only [hkind, hlong] at hrest
              cases hrest
      | some long =>
          refine ⟨Or.inl (by rw [hlong]; rfl), fun hkind => ?_⟩
          cases hshort : Text.nonBlank? strategy.short with
          | none =>
              simp only [hkind, hlong, hshort] at hrest
              cases hrest
          | some short => rfl

/-- By cases on the kind and on the formulas that are given. -/
theorem positions_decides (haligned : conditions.Aligned dates) (hcomplete : strategy.Complete) :
    Decides conditions.names dates strategy.usedFormulas (strategy.positions conditions) := by
  rw [positions_eq, entryText?]
  unfold positionsFrom usedFormulas
  cases hlong : Text.nonBlank? strategy.long with
  | none =>
      cases hkind : strategy.kind with
      | longShort => exact absurd hcomplete (not_complete_of_none hlong (Or.inl hkind))
      | longCash =>
          cases hexpression : Text.nonBlank? strategy.expression with
          | none => exact absurd hcomplete (not_complete_of_none hlong (Or.inr hexpression))
          | some text => exact longWhere_decides haligned text
  | some long =>
      cases hkind : strategy.kind with
      | longCash =>
          cases hcash : Text.nonBlank? strategy.cash with
          | none => exact longWhere_decides haligned long
          | some cash => exact join_decides (fun _ _ => rfl) haligned long cash
      | longShort =>
          cases hshort : Text.nonBlank? strategy.short with
          | none =>
              have hsome := hcomplete.short hkind
              rw [hshort] at hsome
              cases hsome
          | some short => exact join_decides (fun _ _ => rfl) haligned long short

theorem exists_positions_iff (haligned : conditions.Aligned dates) :
    (∃ positions, strategy.positions conditions = .ok positions) ↔ strategy.Ready conditions.names := by
  constructor
  · rintro ⟨positions, hpositions⟩
    have hcomplete := complete_of_positions hpositions
    exact ⟨hcomplete, (positions_decides haligned hcomplete).ok_iff.mp ⟨positions, hpositions⟩⟩
  · rintro ⟨hcomplete, hreadable⟩
    exact (positions_decides haligned hcomplete).ok_iff.mpr hreadable

theorem dates_of_positions (haligned : conditions.Aligned dates) {positions : Series Position}
    (hpositions : strategy.positions conditions = .ok positions) : positions.dates = dates :=
  (positions_decides haligned (complete_of_positions hpositions)).dates_eq positions hpositions

end Backtest.Strategy
