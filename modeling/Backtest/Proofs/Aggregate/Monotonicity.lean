import Mathlib.Algebra.Order.BigOperators.Group.List
import Mathlib.Algebra.Order.Field.Rat
import Mathlib.Tactic.Linarith
import Backtest.Proofs.Aggregate.Alignment
import Backtest.Proofs.Aggregate.Hysteresis
import Backtest.Proofs.Position.Order
import Backtest.Proofs.Series.Pointwise

/-!
# Aggregation keeps the order of positions

Signals that take nowhere a higher position combine to a signal that takes nowhere a higher one, if they
are combined by weights or by a majority with a threshold. A row that is nowhere higher has no more
votes for long and no fewer for short. With weights the score is therefore no higher, because no share is
negative. A majority with a threshold also remembers a position, so the two runs are compared step by
step with the positions that they hold.

A plurality does not keep the order: votes that leave short for cash can tie with those for long.
-/

namespace Backtest

/-- Two signals of one name on the same dates, the first nowhere above the second. -/
structure NamedSignal.Below (lower upper : NamedSignal) : Prop where
  name_eq : lower.name = upper.name
  positions : lower.positions.Pointwise (· ≤ ·) upper.positions

namespace Aggregate

/-- The methods that keep the order of positions. -/
def Method.IsOrdered {α : Type} : Method α → Prop
  | .weighted _ => True
  | .majority threshold _ => threshold.isSome = true
  | .custom _ => False

/-! ### Rows -/

section Rows

variable {lower upper : List NamedSignal}

theorem names_eq_of_below (hsignals : List.Forall₂ NamedSignal.Below lower upper) :
    lower.map NamedSignal.name = upper.map NamedSignal.name :=
  map_eq_map_iff_forall₂.mpr (hsignals.imp fun _ _ hsignal => hsignal.name_eq)

theorem rows_pointwise (hsignals : List.Forall₂ NamedSignal.Below lower upper) :
    (rows lower).Pointwise (List.Forall₂ (· ≤ ·)) (rows upper) :=
  rows_related (le_refl Position.cash) (hsignals.imp fun _ _ hsignal => hsignal.positions)

end Rows

/-! ### Weights -/

variable {names : List String} {row row' : List Position}

theorem scoreThreshold_rat : (scoreThreshold : Rat) = 3 / 10 := by
  norm_num [scoreThreshold, Scalar.ratio]

/-- A direction is taken where the score is off zero on its side. -/
theorem positionOfScore_eq_iff {direction : Position} (hdirection : direction ≠ .cash) {score : Rat} :
    positionOfScore score = direction ↔ 3 / 10 < (direction.sign : Rat) * score := by
  rw [positionOfScore, scoreThreshold_rat]
  cases direction with
  | long =>
      rw [Position.sign, Int.cast_one, one_mul]
      split_ifs with hlong hshort
      · exact iff_of_true rfl hlong
      · exact iff_of_false (by decide) hlong
      · exact iff_of_false (by decide) hlong
  | cash => exact absurd rfl hdirection
  | short =>
      rw [Position.sign, Int.cast_neg, Int.cast_one, neg_one_mul]
      split_ifs with hlong hshort
      · exact iff_of_false (by decide) fun hshort => by linarith
      · exact iff_of_true rfl (lt_neg.mp hshort)
      · exact iff_of_false (by decide) fun hbelow => hshort (lt_neg.mp hbelow)

theorem positionOfScore_mono {score score' : Rat} (hscore : score ≤ score') :
    positionOfScore score ≤ positionOfScore score' := by
  have hlong : Position.long ≠ .cash := by decide
  have hshort : Position.short ≠ .cash := by decide
  rw [Position.le_iff, positionOfScore_eq_iff hlong, positionOfScore_eq_iff hlong,
    positionOfScore_eq_iff hshort, positionOfScore_eq_iff hshort]
  constructor
  · intro habove
    exact habove.trans_le (mul_le_mul_of_nonneg_left hscore (by decide +kernel))
  · intro hbelow
    exact hbelow.trans_le (mul_le_mul_of_nonpos_left hscore (by decide +kernel))

theorem score_mono {shares : List (String × Rat)} (hshares : ∀ share ∈ shares, 0 ≤ share.2)
    (hrow : List.Forall₂ (· ≤ ·) row row') : score shares row ≤ score shares row' := by
  rw [score, score, Scalar.sum_rat, Scalar.sum_rat]
  apply List.Forall₂.sum_le_sum
  induction hrow generalizing shares with
  | nil => exact .nil
  | @cons position position' rest rest' hposition _ ih =>
      cases shares with
      | nil => exact .nil
      | cons share shares =>
          obtain ⟨hshare, hothers⟩ := List.forall_mem_cons.mp hshares
          have hsign : (position.sign : Rat) ≤ (position'.sign : Rat) :=
            Int.cast_le.mpr (Position.le_def.mp hposition)
          exact .cons (mul_le_mul_of_nonneg_left hsign hshare) (ih hothers)

theorem normalizedWeights_nonneg {weights : Option (Weights Rat)} {shares : List (String × Rat)}
    (hshares : normalizedWeights names weights = .ok shares) : ∀ share ∈ shares, 0 ≤ share.2 := by
  obtain ⟨⟨hgood, htotal⟩, rfl⟩ := normalizedWeights_eq_ok_iff.mp hshares
  intro share hshare
  obtain ⟨given, hgiven, rfl⟩ := List.mem_map.mp hshare
  exact div_nonneg (not_lt.mp (hgood given hgiven).2) (not_le.mp htotal).le

/-! ### Majorities -/

/-- The second row is no less in favour of a direction than the first one: it has no fewer votes for
the direction and no more for the opposite one. -/
structure Favours (direction : Position) (row row' : List Position) : Prop where
  length_eq : row.length = row'.length
  votes_le : row.count direction ≤ row'.count direction
  opposite_le : row'.count direction.opposite ≤ row.count direction.opposite

theorem count_le_count {direction : Position}
    (hrow : List.Forall₂ (fun vote vote' => vote = direction → vote' = direction) row row') :
    row.count direction ≤ row'.count direction := by
  induction hrow with
  | nil => exact le_rfl
  | @cons vote vote' rest rest' hvote _ ih =>
      rw [List.count_cons, List.count_cons]
      by_cases hsame : vote = direction
      · simpa [hsame, hvote hsame] using ih
      · simpa [hsame] using Nat.le_add_right_of_le ih

theorem favours_long (hrow : List.Forall₂ (· ≤ ·) row row') : Favours .long row row' where
  length_eq := hrow.length_eq
  votes_le := count_le_count (hrow.imp fun _ _ hvote => (Position.le_iff.mp hvote).1)
  opposite_le := by
    have hshort : List.Forall₂ (fun vote' vote => vote' = Position.short → vote = .short) row' row :=
      (hrow.imp fun _ _ hvote => (Position.le_iff.mp hvote).2).flip
    exact count_le_count hshort

theorem favours_short (hrow : List.Forall₂ (· ≤ ·) row row') : Favours .short row' row :=
  have hlong := favours_long hrow
  ⟨hlong.length_eq.symm, hlong.opposite_le, hlong.votes_le⟩

variable {threshold exit : Rat} {direction held held' : Position}

theorem Favours.voteShare_le (hrows : Favours direction row row') :
    voteShare direction row ≤ voteShare direction row' := by
  rw [voteShare, voteShare, hrows.length_eq]
  exact div_le_div_of_nonneg_right (Nat.cast_le.mpr hrows.votes_le) (Nat.cast_nonneg _)

theorem Favours.voteShare_opposite_le (hrows : Favours direction row row') :
    voteShare direction.opposite row' ≤ voteShare direction.opposite row := by
  rw [voteShare, voteShare, hrows.length_eq]
  exact div_le_div_of_nonneg_right (Nat.cast_le.mpr hrows.opposite_le) (Nat.cast_nonneg _)

theorem Favours.enters (hrows : Favours direction row row') (henters : Enters threshold direction row) :
    Enters threshold direction row' :=
  ⟨henters.1.trans hrows.voteShare_le,
    hrows.opposite_le.trans_lt (henters.2.trans_le hrows.votes_le)⟩

theorem Favours.enters_opposite (hrows : Favours direction row row')
    (henters : Enters threshold direction.opposite row') :
    Enters threshold direction.opposite row := by
  refine ⟨henters.1.trans hrows.voteShare_opposite_le, ?_⟩
  have hmore := henters.2
  rw [Position.opposite_opposite] at hmore ⊢
  exact hrows.votes_le.trans_lt (hmore.trans_le hrows.opposite_le)

theorem Favours.keeps (hrows : Favours direction row row') (hkeeps : Keeps threshold exit direction row) :
    Keeps threshold exit direction row' :=
  ⟨fun henters => hkeeps.1 (hrows.enters_opposite henters), hkeeps.2.trans hrows.voteShare_le⟩

/-- A direction that is held after a row is held after every row that is no less in its favour. -/
theorem Favours.majorityStep_eq (hrows : Favours direction row row') (hdirection : direction ≠ .cash)
    (hheld : held = direction → held' = direction)
    (hstep : majorityStep threshold exit held row = direction) :
    majorityStep threshold exit held' row' = direction := by
  rw [majorityStep_eq_iff hdirection] at hstep ⊢
  rcases hstep with henters | ⟨hbefore, hkeeps⟩
  · exact .inl (hrows.enters henters)
  · exact .inr ⟨hheld hbefore, hrows.keeps hkeeps⟩

theorem majorityStep_mono (hheld : held ≤ held') (hrow : List.Forall₂ (· ≤ ·) row row') :
    majorityStep threshold exit held row ≤ majorityStep threshold exit held' row' := by
  rw [Position.le_iff] at hheld ⊢
  exact ⟨(favours_long hrow).majorityStep_eq (by decide) hheld.1,
    (favours_short hrow).majorityStep_eq (by decide) hheld.2⟩

/-! ### Combining -/

theorem combineRows_mono {method : Method Rat} (hmethod : method.IsOrdered)
    {rows rows' : Series (List Position)} (hrows : rows.Pointwise (List.Forall₂ (· ≤ ·)) rows')
    {low high : Combination Rat} (hlow : combineRows names rows method = .ok low)
    (hhigh : combineRows names rows' method = .ok high) :
    low.positions.Pointwise (· ≤ ·) high.positions := by
  cases method with
  | weighted weights =>
      obtain ⟨shares, hshares, hresult⟩ := bind_eq_ok_iff.mp hlow
      obtain ⟨shares', hshares', hresult'⟩ := bind_eq_ok_iff.mp hhigh
      rw [hshares] at hshares'
      cases hshares'
      cases hresult
      cases hresult'
      have hscores : (rows.map (score shares)).Pointwise (· ≤ ·) (rows'.map (score shares)) :=
        hrows.map fun _ _ hrow => score_mono (normalizedWeights_nonneg hshares) hrow
      exact hscores.map fun _ _ hscore => positionOfScore_mono hscore
  | majority threshold exitThreshold =>
      cases threshold with
      | none => cases hmethod
      | some threshold =>
          obtain ⟨_, _, hresult⟩ := bind_eq_ok_iff.mp hlow
          obtain ⟨_, _, hresult'⟩ := bind_eq_ok_iff.mp hhigh
          cases hresult
          cases hresult'
          exact hrows.scan (fun _ _ _ _ hheld hrow => majorityStep_mono hheld hrow) le_rfl
  | custom expression => cases hmethod

/-- **Aggregation keeps the order of positions.** Two families of signals with the same names and dates,
the signals of the first nowhere above those of the second, can both be combined by weights or by a
majority with a threshold that are usable for these names. The combined signals have the same dates,
and the first is nowhere above the second. -/
theorem combine_monotone {lower upper : List NamedSignal}
    (hsignals : List.Forall₂ NamedSignal.Below lower upper) {method : Method Rat}
    (hmethod : method.IsOrdered) (hsome : lower ≠ []) (hnames : (lower.map NamedSignal.name).Nodup)
    (husable : method.Usable (lower.map NamedSignal.name)) :
    ∃ low high, combine lower method = .ok low ∧ combine upper method = .ok high ∧
      low.positions.Pointwise (· ≤ ·) high.positions := by
  have hsame := names_eq_of_below hsignals
  have hsome' : upper ≠ [] := by
    rintro rfl
    exact hsome (List.forall₂_nil_right_iff.mp hsignals)
  obtain ⟨low, hlow⟩ := exists_combine_iff.mpr ⟨hsome, hnames, husable⟩
  obtain ⟨high, hhigh⟩ := exists_combine_iff.mpr ⟨hsome', hsame ▸ hnames, hsame ▸ husable⟩
  refine ⟨low, high, hlow, hhigh, ?_⟩
  rw [combine_eq_of_nodup hsome hnames] at hlow
  rw [combine_eq_of_nodup hsome' (hsame ▸ hnames), ← hsame] at hhigh
  exact combineRows_mono hmethod (rows_pointwise hsignals) hlow hhigh

/-! ### Two families in order

The first strategy has no position on the last day, so that day is not combined.
-/

namespace Sample

def lower : List NamedSignal :=
  [⟨"trend", ⟨[(⟨0⟩, .long), (⟨1⟩, .cash), (⟨4⟩, .short)], by decide⟩⟩,
    ⟨"revert", ⟨[(⟨0⟩, .cash), (⟨1⟩, .cash), (⟨4⟩, .short), (⟨5⟩, .short)], by decide⟩⟩]

def upper : List NamedSignal :=
  [⟨"trend", ⟨[(⟨0⟩, .long), (⟨1⟩, .long), (⟨4⟩, .cash)], by decide⟩⟩,
    ⟨"revert", ⟨[(⟨0⟩, .long), (⟨1⟩, .cash), (⟨4⟩, .short), (⟨5⟩, .long)], by decide⟩⟩]

def shares : Weights Rat where
  entries := [("revert", 1), ("trend", 3)]
  ascending := by decide

theorem lower_below_upper : List.Forall₂ NamedSignal.Below lower upper :=
  .cons ⟨rfl, by decide⟩ (.cons ⟨rfl, by decide⟩ .nil)

end Sample

theorem combine_monotone_sample :
    List.Forall₂ NamedSignal.Below Sample.lower Sample.upper ∧ Sample.lower ≠ [] ∧
      (Sample.lower.map NamedSignal.name).Nodup ∧
      ∀ method ∈ [Method.weighted (some Sample.shares), .majority (some (1 / 2 : Rat)) none],
        method.IsOrdered ∧ method.Usable (Sample.lower.map NamedSignal.name) ∧
          ∃ low high, combine Sample.lower method = .ok low ∧ combine Sample.upper method = .ok high ∧
            low.positions.Pointwise (· ≤ ·) high.positions := by
  have hsome : Sample.lower ≠ [] := by simp [Sample.lower]
  have hnames : (Sample.lower.map NamedSignal.name).Nodup := by decide
  refine ⟨Sample.lower_below_upper, hsome, hnames, List.forall_mem_cons.mpr ⟨?_, ?_⟩⟩
  · have husable : (Method.weighted (some Sample.shares)).Usable (Sample.lower.map NamedSignal.name) :=
      ⟨by decide +kernel, by decide +kernel⟩
    exact ⟨trivial, husable, combine_monotone Sample.lower_below_upper trivial hsome hnames husable⟩
  · rw [List.forall_mem_singleton]
    have husable : (Method.majority (some (1 / 2 : Rat)) none).Usable
        (Sample.lower.map NamedSignal.name) :=
      ⟨by decide +kernel, by decide +kernel⟩
    exact ⟨rfl, husable, combine_monotone Sample.lower_below_upper rfl hsome hnames husable⟩

/-- A plurality can fall from long to cash when a vote leaves short. -/
example : [Position.long, .long, .cash, .short].Forall₂ (· ≤ ·) [.long, .long, .cash, .cash] ∧
    (Tally.of [.long, .long, .cash, .short]).plurality = .long ∧
    (Tally.of [.long, .long, .cash, .cash]).plurality = .cash := by
  decide

end Aggregate

end Backtest
