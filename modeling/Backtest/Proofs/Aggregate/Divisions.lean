import Backtest.Proofs.Aggregate.Acceptance
import Backtest.Proofs.Scalar.Partial
import Backtest.Proofs.Series.Pointwise
import Backtest.Proofs.Strategy.Cutoff

/-!
# Divisions of a combination

Weights are divided by their total, which has been found positive before, and votes are counted relative
to the number of strategies. Every row has a position for each strategy, and nothing is combined without
strategies. So a combination is the same in partial scalars.
-/

namespace Backtest

variable {α β : Type}

def Combination.map (f : α → β) (combination : Combination α) : Combination β where
  method := combination.method
  strategies := combination.strategies
  positions := combination.positions
  weights := combination.weights.map (List.map (Prod.map id f))
  scores := combination.scores.map (Series.map f)
  recovered := combination.recovered

namespace Aggregate

def Method.map (f : α → β) : Method α → Method β
  | .weighted weights => .weighted (weights.map (NameTable.map f))
  | .majority threshold exitThreshold => .majority (threshold.map f) (exitThreshold.map f)
  | .custom expression => .custom expression

open PartialRat

variable {answers : Answers} {names : List String}

/-! ### Weights -/

theorem givenWeights_map_of (names : List String) (weights : Option (Weights Rat)) :
    (givenWeights names (weights.map (NameTable.map of)) : List (String × PartialRat answers)) =
      (givenWeights names weights).map (Prod.map id of) := by
  cases weights with
  | none => simp [givenWeights]
  | some table =>
      simp only [givenWeights, Option.map_some, List.map_map]
      refine List.map_congr_left fun name _ => ?_
      rw [NameTable.get?_map]
      exact congrArg (Prod.mk name) (Option.getD_map of 0 _)

theorem normalizedWeights_map_of (names : List String) (weights : Option (Weights Rat)) :
    (normalizedWeights names (weights.map (NameTable.map of)) :
        Except Error (List (String × PartialRat answers))) =
      (normalizedWeights names weights).map (List.map (Prod.map id of)) := by
  have hfault : (fun entry => !Scalar.isFinite entry.2 || decide (entry.2 < 0)) ∘
      (Prod.map id of : String × Rat → String × PartialRat answers) =
        fun entry => !Scalar.isFinite entry.2 || decide (entry.2 < 0) := by
    funext entry
    simp
  have htotal : ((givenWeights names weights).map
      (Prod.map id (of : Rat → PartialRat answers))).map Prod.snd =
        ((givenWeights names weights).map Prod.snd).map of := by
    simp
  simp only [normalizedWeights, givenWeights_map_of, List.find?_map, hfault]
  cases (givenWeights names weights).find? fun entry =>
      !Scalar.isFinite entry.2 || decide (entry.2 < 0) with
  | some entry => rfl
  | none =>
      simp only [Option.map_none, htotal, sum_map_of, zero_eq, of_le_of]
      split_ifs with hweight
      · rfl
      · simp only [Except.map, List.map_map]
        refine congrArg _ (List.map_congr_left fun entry _ => ?_)
        exact congrArg (Prod.mk entry.1) (of_div_of (not_le.mp hweight).ne' entry.2)

theorem score_map_of (weights : List (String × Rat)) (row : List Position) :
    (score (weights.map (Prod.map id of)) row : PartialRat answers) = of (score weights row) := by
  rw [score, List.zipWith_map_right, score, ← sum_map_of, List.map_zipWith]
  rfl

theorem positionOfScore_of (score : Rat) :
    positionOfScore (of score : PartialRat answers) = positionOfScore score := by
  have hthreshold : (scoreThreshold : PartialRat answers) = of scoreThreshold := ratio_eq (by decide) 3
  simp only [positionOfScore, hthreshold, neg_of, of_lt_of]

/-! ### Votes -/

theorem checkThresholds_of (threshold exit : Rat) :
    checkThresholds (of threshold : PartialRat answers) (of exit) = checkThresholds threshold exit := by
  simp [checkThresholds]

/-- A row has a position for every strategy, so none is empty. -/
theorem majorityStep_of (threshold exit : Rat) (held : Position) {row : List Position}
    (hrow : row ≠ []) :
    majorityStep (of threshold : PartialRat answers) (of exit) held row =
      majorityStep threshold exit held row := by
  have hlong : (longShare row : PartialRat answers) = of (longShare row) :=
    of_div_of (length_ne_zero hrow) _
  have hshort : (shortShare row : PartialRat answers) = of (shortShare row) :=
    of_div_of (length_ne_zero hrow) _
  simp only [majorityStep, hlong, hshort, of_le_of, of_lt_of]

/-! ### Combining -/

theorem combineRows_map_of {rows : Series (List Position)}
    (hrows : rows.Pointwise (fun row other => row = other ∧ row ≠ []) rows) (method : Method Rat) :
    combineRows names rows (method.map of) =
      (combineRows names rows method).map (Combination.map (of : Rat → PartialRat answers)) := by
  cases method with
  | weighted weights =>
      simp only [combineRows, Method.map, normalizedWeights_map_of]
      cases normalizedWeights names weights with
      | error fault => rfl
      | ok shares =>
          have hscores : rows.map (score (shares.map (Prod.map id of))) =
              (rows.map (score shares)).map (of : Rat → PartialRat answers) := by
            rw [Series.map_map]
            exact congrArg rows.map (funext (score_map_of shares))
          have hpositions : ((rows.map (score shares)).map (of : Rat → PartialRat answers)).map
              positionOfScore = (rows.map (score shares)).map positionOfScore := by
            rw [Series.map_map]
            exact congrArg (rows.map (score shares)).map (funext positionOfScore_of)
          simp only [Except.map, bind, Except.bind, hscores, hpositions]
          rfl
  | majority threshold exitThreshold =>
      cases threshold with
      | none => rfl
      | some threshold =>
          have hexit : ((exitThreshold.map of).getD (of threshold / ((2 : Nat) : PartialRat answers))) =
              of (exitThreshold.getD (threshold / ((2 : Nat) : Rat))) := by
            rw [natCast_eq, of_div_of (Nat.cast_ne_zero.mpr two_ne_zero),
              Option.getD_map]
          have hscan (exit : Rat) :
              rows.scan (majorityStep (of threshold : PartialRat answers) (of exit)) .cash =
                rows.scan (majorityStep threshold exit) .cash := by
            refine (hrows.scan (S := (· = ·)) ?_ rfl).eq
            rintro held _ row _ rfl ⟨rfl, hrow⟩
            exact majorityStep_of threshold exit held hrow
          simp only [combineRows, Method.map, Option.map_some, hexit, checkThresholds_of, hscan]
          cases checkThresholds threshold (exitThreshold.getD (threshold / ((2 : Nat) : Rat))) with
          | error fault => rfl
          | ok _ => rfl
  | custom expression =>
      simp only [combineRows, Method.map]
      cases Vote.parse expression with
      | error refusal => rfl
      | ok vote => rfl

theorem rows_nonempty {signals : List NamedSignal} (hsome : signals ≠ []) :
    (rows signals).Pointwise (fun row other => row = other ∧ row ≠ []) (rows signals) :=
  Series.pointwise_onAxis fun date _ => ⟨rfl, by simpa using hsome⟩

/-- A combination is the same in partial scalars, and it is refused for the same reason. -/
theorem combine_map_of (signals : List NamedSignal) (method : Method Rat) :
    combine signals (method.map of) =
      (combine signals method).map (Combination.map (of : Rat → PartialRat answers)) := by
  by_cases hempty : signals = []
  · subst hempty
    rfl
  have hisEmpty : signals.isEmpty = false := by simpa using hempty
  simp only [combine, hisEmpty]
  cases firstRepeated? [] (signals.map NamedSignal.name) with
  | some name => rfl
  | none => exact combineRows_map_of (rows_nonempty hempty) method

end Aggregate

end Backtest
