import Backtest.Proofs.Lookup
import Backtest.Vote.Parser

/-!
# Votes with some positions missing

A vote is read from left to right, and the second side of a connective is left out where the first one
settles it. So a vote may have a value although some of its strategies have no position. This value is
final: it does not change when more positions become known, and it is the truth value of the vote whatever
the missing positions are. A vote without a value names a strategy that it mentions and that has no
position.
-/

namespace Backtest.Vote

variable {positions more : String → Option Position} {vote : Vote}

/-- More positions are known, and none of those known before has changed. -/
def Extends (more positions : String → Option Position) : Prop :=
  ∀ strategy position, positions strategy = some position → more strategy = some position

/-- The truth value of a vote when every strategy has a position. -/
def truth (assigned : String → Position) (vote : Vote) : Bool :=
  Formula.holds (fun test => assigned test.strategy = test.position) vote

theorem truth_and (assigned : String → Position) (left right : Vote) :
    truth assigned (.and left right) = (truth assigned left && truth assigned right) := rfl

theorem truth_or (assigned : String → Position) (left right : Vote) :
    truth assigned (.or left right) = (truth assigned left || truth assigned right) := rfl

theorem mem_strategies_iff {strategy : String} :
    strategy ∈ vote.strategies ↔ ∃ test ∈ Formula.atoms vote, test.strategy = strategy := by
  rw [strategies, NameTable.mem_distinct_iff, List.mem_map]

/-! ### Connectives -/

/-- One truth value of the first side settles a connective; the other one leaves it to the second side. -/
def shortCircuit (settling : Bool) (first second : Except String Bool) : Except String Bool :=
  match first with
  | .ok value => if value = settling then .ok settling else second
  | .error strategy => .error strategy

theorem eval_and (left right : Vote) :
    eval positions (.and left right) =
      shortCircuit false (eval positions left) (eval positions right) := by
  rw [eval]
  cases eval positions left with
  | error strategy => rfl
  | ok value => cases value <;> rfl

theorem eval_or (left right : Vote) :
    eval positions (.or left right) =
      shortCircuit true (eval positions left) (eval positions right) := by
  rw [eval]
  cases eval positions left with
  | error strategy => rfl
  | ok value => cases value <;> rfl

section Connective

variable {settling value : Bool} {first second : Except String Bool}

theorem shortCircuit_eq_ok_iff :
    shortCircuit settling first second = .ok value ↔
      first = .ok settling ∧ value = settling ∨ first = .ok (!settling) ∧ second = .ok value := by
  cases first with
  | error strategy => simp [shortCircuit]
  | ok decided =>
      by_cases hsettled : decided = settling
      · simp [shortCircuit, hsettled, eq_comm]
      · simp [shortCircuit, Bool.eq_not.mpr hsettled]

theorem shortCircuit_eq_error_iff {strategy : String} :
    shortCircuit settling first second = .error strategy ↔
      first = .error strategy ∨ first = .ok (!settling) ∧ second = .error strategy := by
  cases first with
  | error other => simp [shortCircuit]
  | ok decided =>
      by_cases hsettled : decided = settling
      · simp [shortCircuit, hsettled]
      · simp [shortCircuit, Bool.eq_not.mpr hsettled]

end Connective

/-! ### Votes -/

theorem eval_of_extends (hextends : Extends more positions) {value : Bool}
    (heval : eval positions vote = .ok value) : eval more vote = .ok value := by
  induction vote generalizing value with
  | atom test =>
      rw [eval] at heval ⊢
      cases hposition : positions test.strategy with
      | none => simp [hposition] at heval
      | some position =>
          rw [hextends _ _ hposition]
          rwa [hposition] at heval
  | and left right ihleft ihright =>
      rw [eval_and, shortCircuit_eq_ok_iff] at heval ⊢
      exact heval.imp (And.imp_left ihleft) (And.imp ihleft ihright)
  | or left right ihleft ihright =>
      rw [eval_or, shortCircuit_eq_ok_iff] at heval ⊢
      exact heval.imp (And.imp_left ihleft) (And.imp ihleft ihright)

theorem eval_assigned (assigned : String → Position) (vote : Vote) :
    eval (fun strategy => some (assigned strategy)) vote = .ok (vote.truth assigned) := by
  induction vote with
  | atom test => rfl
  | and left right ihleft ihright =>
      rw [eval_and, ihleft, ihright, truth_and]
      cases truth assigned left <;> rfl
  | or left right ihleft ihright =>
      rw [eval_or, ihleft, ihright, truth_or]
      cases truth assigned left <;> rfl

theorem eq_truth_of_eval {value : Bool} (heval : eval positions vote = .ok value)
    {assigned : String → Position} (hassigned : Extends (fun strategy => some (assigned strategy)) positions) :
    value = vote.truth assigned := by
  have hvalue := eval_of_extends hassigned heval
  rw [eval_assigned] at hvalue
  exact (Except.ok.inj hvalue).symm

theorem exists_test_of_eval_eq_error {strategy : String} (heval : eval positions vote = .error strategy) :
    (∃ test ∈ Formula.atoms vote, test.strategy = strategy) ∧ positions strategy = none := by
  induction vote with
  | atom test =>
      rw [eval] at heval
      cases hposition : positions test.strategy with
      | none =>
          simp only [hposition] at heval
          cases heval
          exact ⟨⟨test, List.mem_singleton_self test, rfl⟩, hposition⟩
      | some position => simp [hposition] at heval
  | and left right ihleft ihright | or left right ihleft ihright =>
      simp only [eval_and, eval_or, shortCircuit_eq_error_iff] at heval
      simp only [Formula.atoms, List.mem_append]
      rcases heval with hleft | ⟨_, hright⟩
      · obtain ⟨⟨test, htest, hname⟩, hmissing⟩ := ihleft hleft
        exact ⟨⟨test, .inl htest, hname⟩, hmissing⟩
      · obtain ⟨⟨test, htest, hname⟩, hmissing⟩ := ihright hright
        exact ⟨⟨test, .inr htest, hname⟩, hmissing⟩

/-- **A vote is decided soundly.** A value that is found among some positions is found among all positions
that extend them, and it is the truth value of the vote under every full assignment that does. When no value
is found, the strategy that is named stands in the vote and has no position. So a vote whose strategies all
have positions is decided. -/
theorem eval_sound (vote : Vote) (positions : String → Option Position) :
    (∀ value, eval positions vote = .ok value →
      (∀ more, Extends more positions → eval more vote = .ok value) ∧
        ∀ assigned : String → Position, Extends (fun strategy => some (assigned strategy)) positions →
          value = vote.truth assigned) ∧
    (∀ strategy, eval positions vote = .error strategy →
      strategy ∈ vote.strategies ∧ positions strategy = none) ∧
    ((∀ strategy ∈ vote.strategies, ∃ position, positions strategy = some position) →
      ∃ value, eval positions vote = .ok value) := by
  have hmissing (strategy : String) (heval : eval positions vote = .error strategy) :
      strategy ∈ vote.strategies ∧ positions strategy = none :=
    (exists_test_of_eval_eq_error heval).imp_left mem_strategies_iff.mpr
  refine ⟨fun value heval => ⟨?_, ?_⟩, hmissing, fun hknown => ?_⟩
  · exact fun more hextends => eval_of_extends hextends heval
  · exact fun assigned hassigned => eq_truth_of_eval heval hassigned
  · cases heval : eval positions vote with
    | ok value => exact ⟨value, rfl⟩
    | error strategy =>
        obtain ⟨hmentioned, hnone⟩ := hmissing strategy heval
        obtain ⟨position, hposition⟩ := hknown strategy hmentioned
        rw [hnone] at hposition
        cases hposition

/-- The first vote is settled although `ghost` has no position; the second one meets `ghost` first. -/
theorem eval_sound_sample :
    let positions (strategy : String) : Option Position := if strategy = "trend" then some .long else none
    let settled : Vote := .or (.atom ⟨"trend", .long⟩) (.atom ⟨"ghost", .long⟩)
    let unsettled : Vote := .or (.atom ⟨"ghost", .long⟩) (.atom ⟨"trend", .long⟩)
    (eval positions settled = .ok true ∧
      ∀ assigned : String → Position, assigned "trend" = .long → settled.truth assigned = true) ∧
    eval positions unsettled = .error "ghost" ∧ "ghost" ∈ unsettled.strategies := by
  intro positions settled unsettled
  have hsettled : eval positions settled = .ok true := by decide
  have hunsettled : eval positions unsettled = .error "ghost" := by decide
  refine ⟨⟨hsettled, fun assigned htrend => ?_⟩, hunsettled, ?_⟩
  · have hassigned : Extends (fun strategy => some (assigned strategy)) positions := by
      intro strategy position hposition
      by_cases hname : strategy = "trend"
      · simpa [positions, hname, htrend] using hposition
      · simp [positions, hname] at hposition
    exact (((eval_sound settled positions).1 true hsettled).2 assigned hassigned).symm
  · exact ((eval_sound unsettled positions).2.1 "ghost" hunsettled).1

end Backtest.Vote
