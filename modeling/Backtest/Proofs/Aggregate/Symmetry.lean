import Mathlib.Data.List.Count
import Mathlib.Tactic.SplitIfs
import Backtest.Proofs.Aggregate.Shares

/-!
# Long and short exchanged

Weights and majorities treat the two directions alike: when every strategy takes the opposite of its
positions, so does the combination, and every score is negated. In each rule the condition for long is
tested before the one for short. That makes no difference because the two never hold together, so each
rule is first described by one condition for either direction.

A vote is not symmetric: it reads the positions that its text names, and a tie goes to long.
-/

namespace Backtest

namespace Position

variable {first second : Position}

theorem opposite_eq_iff : first.opposite = second ↔ first = second.opposite := by
  constructor
  · rintro rfl
    exact (opposite_opposite first).symm
  · rintro rfl
    exact opposite_opposite second

theorem opposite_ne_cash {direction : Position} (hdirection : direction ≠ .cash) :
    direction.opposite ≠ .cash :=
  fun hcash => hdirection (opposite_eq_iff.mp hcash)

theorem sign_opposite (position : Position) : position.opposite.sign = -position.sign := by
  cases position <;> rfl

/-- Positions are opposite when one is a direction exactly where the other is the opposite one. -/
theorem opposite_eq_of_directions
    (hdirections : ∀ direction ≠ .cash, second = direction ↔ first = direction.opposite) :
    first.opposite = second := by
  rw [opposite_eq_iff]
  have hlong := hdirections .long (by decide)
  have hshort := hdirections .short (by decide)
  cases second with
  | long => exact hlong.mp rfl
  | short => exact hshort.mp rfl
  | cash =>
      cases first with
      | long => exact absurd (hshort.mpr rfl) (by decide)
      | cash => rfl
      | short => exact absurd (hlong.mpr rfl) (by decide)

end Position

def NamedSignal.opposite (signal : NamedSignal) : NamedSignal :=
  { signal with positions := signal.positions.map Position.opposite }

/-- The opposite positions with the negated scores. -/
def Combination.opposite (combination : Combination Rat) : Combination Rat :=
  { combination with
    positions := combination.positions.map Position.opposite
    scores := combination.scores.map (Series.map Neg.neg) }

namespace Aggregate

/-- The methods whose rules do not single out a direction. -/
def Method.IsSymmetric {α : Type} : Method α → Prop
  | .weighted _ => True
  | .majority .. => True
  | .custom _ => False

variable {direction : Position} {row : List Position} {threshold exit : Rat}

/-! ### Majorities -/

theorem count_opposite (position : Position) (row : List Position) :
    (row.map Position.opposite).count position = row.count position.opposite := by
  have hinjective : Function.Injective Position.opposite :=
    Function.LeftInverse.injective Position.opposite_opposite
  rw [← List.count_map_of_injective row _ hinjective, Position.opposite_opposite]

/-- A direction has more votes than the opposite one, and more than cash. -/
theorem plurality_eq_iff (hdirection : direction ≠ .cash) :
    (Tally.of row).plurality = direction ↔
      row.count direction.opposite < row.count direction ∧ row.count .cash < row.count direction := by
  rw [Tally.plurality]
  cases direction with
  | long =>
      split_ifs with hlong hshort
      · exact iff_of_true rfl hlong
      · exact iff_of_false (by decide) hlong
      · exact iff_of_false (by decide) hlong
  | cash => exact absurd rfl hdirection
  | short =>
      split_ifs with hlong hshort
      · exact iff_of_false (by decide) fun hshort => Nat.lt_asymm hlong.1 hshort.1
      · exact iff_of_true rfl hshort
      · exact iff_of_false (by decide) hshort

theorem plurality_opposite (row : List Position) :
    (Tally.of row).plurality.opposite = (Tally.of (row.map Position.opposite)).plurality := by
  refine Position.opposite_eq_of_directions fun direction hdirection => ?_
  rw [plurality_eq_iff hdirection, plurality_eq_iff (Position.opposite_ne_cash hdirection)]
  simp only [count_opposite, Position.opposite]

theorem voteShare_opposite (position : Position) (row : List Position) :
    voteShare position (row.map Position.opposite) = voteShare position.opposite row := by
  rw [voteShare, voteShare, count_opposite, List.length_map]

theorem enters_opposite :
    Enters threshold direction (row.map Position.opposite) ↔ Enters threshold direction.opposite row := by
  rw [Enters, Enters, voteShare_opposite, count_opposite, count_opposite]

theorem keeps_opposite :
    Keeps threshold exit direction (row.map Position.opposite) ↔
      Keeps threshold exit direction.opposite row := by
  rw [Keeps, Keeps, voteShare_opposite, enters_opposite]

/-- One row seen from the other side, with the opposite position held before it. -/
theorem majorityStep_opposite (threshold exit : Rat) (held : Position) (row : List Position) :
    (majorityStep threshold exit held row).opposite =
      majorityStep threshold exit held.opposite (row.map Position.opposite) := by
  refine Position.opposite_eq_of_directions fun direction hdirection => ?_
  rw [majorityStep_eq_iff hdirection, majorityStep_eq_iff (Position.opposite_ne_cash hdirection),
    enters_opposite, keeps_opposite, Position.opposite_eq_iff]

/-! ### Weights -/

theorem positionOfScore_opposite (score : Rat) :
    (positionOfScore score).opposite = positionOfScore (-score) := by
  refine Position.opposite_eq_of_directions fun direction hdirection => ?_
  rw [positionOfScore_eq_iff hdirection, positionOfScore_eq_iff (Position.opposite_ne_cash hdirection),
    Position.sign_opposite, Int.cast_neg, mul_neg, neg_mul]

theorem score_opposite (given : List (String × Rat)) (row : List Position) :
    -score given row = score given (row.map Position.opposite) := by
  induction given generalizing row with
  | nil => simp
  | cons share given ih =>
      cases row with
      | nil => simp
      | cons position row =>
          rw [List.map_cons, score_cons, score_cons, ← ih, Position.sign_opposite, Int.cast_neg, mul_neg,
            neg_add]

/-! ### Combining -/

theorem rows_opposite (signals : List NamedSignal) :
    (rows signals).map (List.map Position.opposite) = rows (signals.map NamedSignal.opposite) := by
  have hsignals : List.Forall₂
      (fun signal other => signal.positions.Pointwise (fun first second => first.opposite = second)
        other.positions) signals (signals.map NamedSignal.opposite) := by
    rw [List.forall₂_map_right_iff, List.forall₂_same]
    exact fun signal _ => Series.pointwise_map (fun _ => rfl) signal.positions
  have hrows := rows_related (R := fun first second => first.opposite = second) rfl hsignals
  exact Series.Pointwise.map_eq (hrows.imp fun _ _ hentries =>
    hentries.imp_right map_eq_iff_forall₂.mpr)

theorem combineRows_opposite {method : Method Rat} (hmethod : method.IsSymmetric) (names : List String)
    (rows : Series (List Position)) :
    combineRows names (rows.map (List.map Position.opposite)) method =
      (combineRows names rows method).map Combination.opposite := by
  cases method with
  | weighted weights =>
      simp only [combineRows]
      cases normalizedWeights names weights with
      | error fault => rfl
      | ok given =>
          rw [ok_bind, ok_bind, ← Series.map_comm (score_opposite given) rows,
            ← Series.map_comm positionOfScore_opposite]
          rfl
  | majority threshold exitThreshold =>
      cases threshold with
      | none =>
          simp only [combineRows]
          rw [← Series.map_comm (f := fun row => (Tally.of row).plurality)
            (q := fun row => (Tally.of row).plurality) plurality_opposite rows]
          rfl
      | some threshold =>
          simp only [combineRows]
          cases checkThresholds threshold (exitThreshold.getD (threshold / ((2 : Nat) : Rat))) with
          | error fault => rfl
          | ok _ =>
              have hstep := majorityStep_opposite threshold (exitThreshold.getD (threshold / ((2 : Nat) : Rat)))
              rw [ok_bind, ok_bind, ← Position.opposite, ← Series.scan_comm hstep .cash rows]
              rfl
  | custom expression => cases hmethod

/-- **Long and short exchanged.** When every strategy takes the opposite positions, weights and majorities
with any parameters give the same combination with the opposite positions and the negated scores, and they
fail with the same fault where they failed before. -/
theorem combine_opposite {method : Method Rat} (hmethod : method.IsSymmetric)
    (signals : List NamedSignal) :
    combine (signals.map NamedSignal.opposite) method =
      (combine signals method).map Combination.opposite := by
  have hnames : (signals.map NamedSignal.opposite).map NamedSignal.name = signals.map NamedSignal.name := by
    rw [List.map_map]
    rfl
  simp only [combine, hnames, List.isEmpty_map]
  by_cases hempty : signals.isEmpty = true
  · rw [if_pos hempty, if_pos hempty]
    rfl
  rw [if_neg hempty, if_neg hempty]
  cases firstRepeated? [] (signals.map NamedSignal.name) with
  | some name => rfl
  | none =>
      rw [← rows_opposite]
      exact combineRows_opposite hmethod _ (rows signals)

/-- On the last date both directions have half of the votes, and the majority stays where it was. -/
theorem combine_opposite_sample :
    let signals := [Sample.trend, Sample.revert]
    let method : Method Rat := .majority (some (1 / 2)) none
    method.IsSymmetric ∧ ∃ combination,
      combine (signals.map NamedSignal.opposite) method = .ok combination ∧
        combination.positions.entries = [(⟨0⟩, .short), (⟨4⟩, .short)] := by
  intro signals method
  have hmethod : method.IsSymmetric := trivial
  have hcombine : succeedsWith (fun combination : Combination Rat =>
      combination.opposite.positions.entries = [(⟨0⟩, .short), (⟨4⟩, .short)])
      (combine signals method) = true := by
    decide +kernel
  obtain ⟨combination, hcombination, hentries⟩ := exists_of_succeedsWith hcombine
  refine ⟨hmethod, combination.opposite, ?_, of_decide_eq_true hentries⟩
  rw [combine_opposite hmethod, hcombination]
  rfl

/-- A vote for long is not one for short when the positions are exchanged. -/
example : customPosition? (.atom ⟨"trend", .long⟩) ["trend"] [.long] = some .long ∧
    customPosition? (.atom ⟨"trend", .long⟩) ["trend"] [.short] = some .cash := by
  decide

end Aggregate

end Backtest
