import Mathlib.Algebra.Order.Field.Basic
import Mathlib.Data.List.Induction
import Mathlib.Tactic.NormNum
import Backtest.Aggregate
import Backtest.Proofs.Error.Stages
import Backtest.Proofs.Scalar.Exact

/-!
# What a majority with a threshold holds

The method remembers a position from row to row. Said without the memory, a direction is held after
some rows when one of them entered it and every row since has kept it: none entered the opposite
direction, and the share of the votes never fell below the exit threshold. No row enters both
directions, so the two descriptions never apply at once.
-/

namespace Backtest

namespace Position

def opposite : Position → Position
  | long => short
  | cash => cash
  | short => long

@[simp]
theorem opposite_opposite (position : Position) : position.opposite.opposite = position := by
  cases position <;> rfl

end Position

namespace Aggregate

/-- The share of a row's votes that a position has. -/
def voteShare (position : Position) (row : List Position) : Rat :=
  (row.count position : Rat) / (row.length : Rat)

/-- Enough votes for a direction, and more than for the opposite one. -/
def Enters (threshold : Rat) (direction : Position) (row : List Position) : Prop :=
  threshold ≤ voteShare direction row ∧ row.count direction.opposite < row.count direction

def Keeps (threshold exit : Rat) (direction : Position) (row : List Position) : Prop :=
  ¬Enters threshold direction.opposite row ∧ exit ≤ voteShare direction row

/-- Some row entered the direction and every later one kept it. -/
def HeldSince (threshold exit : Rat) (direction : Position) (rows : List (List Position)) : Prop :=
  ∃ before row after, rows = before ++ row :: after ∧ Enters threshold direction row ∧
    ∀ later ∈ after, Keeps threshold exit direction later

instance (threshold : Rat) (direction : Position) (row : List Position) :
    Decidable (Enters threshold direction row) :=
  inferInstanceAs (Decidable (_ ∧ _))

variable {threshold exit : Rat} {held direction : Position} {row : List Position}
  {rows : List (List Position)}

theorem heldSince_nil : ¬HeldSince threshold exit direction [] := by
  rintro ⟨before, row, after, hrows, _⟩
  simp at hrows

theorem heldSince_concat :
    HeldSince threshold exit direction (rows ++ [row]) ↔
      Enters threshold direction row ∨
        HeldSince threshold exit direction rows ∧ Keeps threshold exit direction row := by
  constructor
  · rintro ⟨before, entering, after, hrows, henters, hkeeps⟩
    -- The row that entered is the last one, or one of the others.
    rcases List.eq_nil_or_concat after with rfl | ⟨rest, last, rfl⟩
    · obtain ⟨_, hrow⟩ := List.append_inj' hrows rfl
      rw [List.singleton_inj.mp hrow]
      exact Or.inl henters
    · rw [List.concat_eq_append] at hrows hkeeps
      rw [← List.cons_append, ← List.append_assoc] at hrows
      obtain ⟨hearlier, hrow⟩ := List.append_inj' hrows rfl
      rw [List.singleton_inj.mp hrow]
      refine Or.inr ⟨⟨before, entering, rest, hearlier, henters, fun later hlater => ?_⟩, ?_⟩
      · exact hkeeps later (List.mem_append_left _ hlater)
      · exact hkeeps last (by simp)
  · rintro (henters | ⟨⟨before, entering, after, rfl, henters, hkeeps⟩, hkeep⟩)
    · exact ⟨rows, row, [], rfl, henters, by simp⟩
    · refine ⟨before, entering, after ++ [row], by simp, henters, fun later hlater => ?_⟩
      rcases List.mem_append.mp hlater with hearlier | hlast
      · exact hkeeps later hearlier
      · rwa [List.mem_singleton.mp hlast]

theorem Enters.not_opposite (henters : Enters threshold direction row) :
    ¬Enters threshold direction.opposite row := by
  rintro ⟨_, hmore⟩
  rw [Position.opposite_opposite] at hmore
  exact absurd henters.2 (Nat.lt_asymm hmore)

/-! ### One row -/

theorem voteShare_lt_voteShare_iff {first second : Position} :
    voteShare first row < voteShare second row ↔ row.count first < row.count second := by
  cases row with
  | nil => simp [voteShare]
  | cons vote rest =>
      have hlength : (0 : Rat) < ((vote :: rest).length : Rat) := by
        rw [List.length_cons]
        exact Nat.cast_pos.mpr (Nat.succ_pos _)
      rw [voteShare, voteShare, div_lt_div_iff_of_pos_right hlength, Nat.cast_lt]

theorem majorityStep_eq (threshold exit : Rat) (held : Position) (row : List Position) :
    majorityStep threshold exit held row =
      if Enters threshold .long row then .long
      else if Enters threshold .short row then .short
      else
        match held with
        | .long => if exit ≤ voteShare .long row then .long else .cash
        | .short => if exit ≤ voteShare .short row then .short else .cash
        | .cash => .cash := by
  unfold majorityStep
  refine if_congr ?_ rfl (if_congr ?_ rfl rfl)
  · exact and_congr Iff.rfl voteShare_lt_voteShare_iff
  · exact and_congr Iff.rfl voteShare_lt_voteShare_iff

/-- A row enters a direction, or the direction was held and the row keeps it. -/
theorem majorityStep_eq_iff (hdirection : direction ≠ .cash) :
    majorityStep threshold exit held row = direction ↔
      Enters threshold direction row ∨ held = direction ∧ Keeps threshold exit direction row := by
  rw [majorityStep_eq]
  by_cases hlong : Enters threshold .long row
  · have hshort : ¬Enters threshold .short row := hlong.not_opposite
    rw [if_pos hlong]
    cases direction with
    | long => simp [hlong]
    | cash => exact absurd rfl hdirection
    | short => simp [hshort, Keeps, Position.opposite, hlong]
  by_cases hshort : Enters threshold .short row
  · rw [if_neg hlong, if_pos hshort]
    cases direction with
    | long => simp [hlong, Keeps, Position.opposite, hshort]
    | cash => exact absurd rfl hdirection
    | short => simp [hshort]
  rw [if_neg hlong, if_neg hshort]
  cases direction with
  | long =>
      cases held with
      | long => simp [hlong, Keeps, Position.opposite, hshort]
      | cash => simp [hlong]
      | short => by_cases hexit : exit ≤ voteShare .short row <;> simp [hlong, hexit]
  | cash => exact absurd rfl hdirection
  | short =>
      cases held with
      | long => by_cases hexit : exit ≤ voteShare .long row <;> simp [hshort, hexit]
      | cash => simp [hshort]
      | short => simp [hshort, Keeps, Position.opposite, hlong]

/-! ### All rows -/

theorem foldl_majorityStep_eq_iff (hdirection : direction ≠ .cash) :
    rows.foldl (majorityStep threshold exit) .cash = direction ↔
      HeldSince threshold exit direction rows := by
  induction rows using List.reverseRecOn with
  | nil => exact iff_of_false hdirection.symm heldSince_nil
  | append_singleton rows row ih =>
      rw [List.foldl_append, List.foldl_cons, List.foldl_nil, majorityStep_eq_iff hdirection, ih,
        heldSince_concat]

theorem foldl_majorityStep_eq_cash_iff :
    rows.foldl (majorityStep threshold exit) .cash = .cash ↔
      ¬HeldSince threshold exit .long rows ∧ ¬HeldSince threshold exit .short rows := by
  rw [← foldl_majorityStep_eq_iff (by decide), ← foldl_majorityStep_eq_iff (by decide)]
  cases rows.foldl (majorityStep threshold exit) .cash <;> simp

end Aggregate

namespace Series

variable {β γ : Type}

/-- The state on a date is that of the machine after the values up to it. -/
theorem getElem?_values_scan (step : γ → β → γ) (start : γ) (series : Series β) {i : Nat}
    (hi : i < series.size) :
    (series.scan step start).values[i]? = some ((series.values.take (i + 1)).foldl step start) := by
  obtain ⟨entries, ascending⟩ := series
  simp only [values, scan, size] at hi ⊢
  clear ascending
  induction entries generalizing start i with
  | nil => simp at hi
  | cons entry rest ih =>
      cases i with
      | zero => simp [scanEntries]
      | succ i =>
          rw [List.length_cons, Nat.add_lt_add_iff_right] at hi
          simpa [scanEntries] using ih (step start entry.2) hi

end Series

namespace Aggregate

/-- **What a majority with a threshold holds.** Accepted thresholds always give positions, on the dates
of the rows. On every row these are the direction that has been held since some row entered it, and
cash if there is none. -/
theorem combineRows_majority (names : List String) (rows : Series (List Position))
    {threshold exit : Rat} (hthreshold : 0 < threshold ∧ threshold ≤ 1)
    (hexit : 0 ≤ exit ∧ exit ≤ threshold) :
    ∃ combination, combineRows names rows (.majority (some threshold) (some exit)) = .ok combination ∧
      combination.positions.dates = rows.dates ∧
      ∀ i < rows.size, ∃ position, combination.positions.values[i]? = some position ∧
        (position = .long ↔ HeldSince threshold exit .long (rows.values.take (i + 1))) ∧
        (position = .short ↔ HeldSince threshold exit .short (rows.values.take (i + 1))) ∧
        (position = .cash ↔ ¬HeldSince threshold exit .long (rows.values.take (i + 1)) ∧
          ¬HeldSince threshold exit .short (rows.values.take (i + 1))) := by
  have hcheck : checkThresholds threshold exit = .ok () := by
    rw [checkThresholds, if_neg (by simpa using hthreshold),
      if_neg (by simpa [Scalar.isWithin] using hexit)]
  refine ⟨_, bind_eq_ok_iff.mpr ⟨(), hcheck, rfl⟩, Series.dates_scan _ _ rows, fun i hi => ?_⟩
  refine ⟨_, Series.getElem?_values_scan _ _ rows hi, ?_, ?_, ?_⟩
  · exact foldl_majorityStep_eq_iff (by decide)
  · exact foldl_majorityStep_eq_iff (by decide)
  · exact foldl_majorityStep_eq_cash_iff

theorem combineRows_majority_sample :
    let rows : Series (List Position) := ⟨[(⟨0⟩, [.long, .long, .cash]), (⟨1⟩, [.long, .short, .cash]),
      (⟨4⟩, [.short, .short, .long]), (⟨5⟩, [.cash, .cash, .cash])], by decide⟩
    (0 < (2 / 3 : Rat) ∧ (2 / 3 : Rat) ≤ 1) ∧ (0 ≤ (1 / 3 : Rat) ∧ (1 / 3 : Rat) ≤ 2 / 3) ∧
      ∃ combination, combineRows ["first", "second", "third"] rows
          (.majority (some (2 / 3 : Rat)) (some (1 / 3))) = .ok combination ∧
        combination.positions.values[1]? = some .long ∧
        HeldSince (2 / 3) (1 / 3) .long (rows.values.take 2) := by
  intro rows
  have hthreshold : 0 < (2 / 3 : Rat) ∧ (2 / 3 : Rat) ≤ 1 := by norm_num
  have hexit : 0 ≤ (1 / 3 : Rat) ∧ (1 / 3 : Rat) ≤ 2 / 3 := by norm_num
  obtain ⟨combination, hcombine, _, hpositions⟩ :=
    combineRows_majority ["first", "second", "third"] rows hthreshold hexit
  obtain ⟨position, hposition, hlong, _⟩ := hpositions 1 (by decide)
  have hheld : HeldSince (2 / 3) (1 / 3) .long (rows.values.take 2) := by
    refine ⟨[], [.long, .long, .cash], [[.long, .short, .cash]], rfl, by decide +kernel, ?_⟩
    intro later hlater
    rw [List.mem_singleton.mp hlater]
    exact ⟨by decide +kernel, by decide +kernel⟩
  rw [hlong.mpr hheld] at hposition
  exact ⟨hthreshold, hexit, combination, hcombine, hposition, hheld⟩

end Aggregate

end Backtest
