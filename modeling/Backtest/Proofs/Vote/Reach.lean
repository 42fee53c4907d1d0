import Backtest.Proofs.Vote.Evaluation

/-!
# The strategies that a vote reaches

A vote is read from left to right and no further than its value needs, so it asks for the positions of
some of the strategies that it mentions. It has a value exactly when every strategy that it asks for has a
position, and otherwise the first one without a position is to blame. What the strategies hold that it
does not mention makes no difference.
-/

namespace Backtest.Vote

variable {positions others : String → Option Position} {vote : Vote}

/-- The strategies that a connective asks for. One truth value of the first side settles it; only the other
one goes on to the second side. -/
def reachedOfSides (settling : Bool) (value : Except String Bool) (first second : List String) :
    List String :=
  if value = .ok (!settling) then first ++ second else first

/-- The strategies whose positions are asked for, in order. -/
def reached (positions : String → Option Position) : Vote → List String
  | .atom test => [test.strategy]
  | .and left right =>
    reachedOfSides false (eval positions left) (reached positions left) (reached positions right)
  | .or left right =>
    reachedOfSides true (eval positions left) (reached positions left) (reached positions right)

theorem mem_reachedOfSides {settling : Bool} {value : Except String Bool} {first second : List String}
    {strategy : String} (hreached : strategy ∈ reachedOfSides settling value first second) :
    strategy ∈ first ∨ strategy ∈ second := by
  rw [reachedOfSides] at hreached
  split_ifs at hreached
  · exact List.mem_append.mp hreached
  · exact .inl hreached

theorem mem_strategies_of_mem_reached {strategy : String} (hreached : strategy ∈ vote.reached positions) :
    strategy ∈ vote.strategies := by
  rw [mem_strategies_iff]
  induction vote with
  | atom test => exact ⟨test, List.mem_singleton_self test, (List.mem_singleton.mp hreached).symm⟩
  | and left right ihleft ihright | or left right ihleft ihright =>
      rw [reached] at hreached
      simp only [Formula.atoms, List.mem_append]
      rcases mem_reachedOfSides hreached with hleft | hright
      · obtain ⟨test, htest, hname⟩ := ihleft hleft
        exact ⟨test, .inl htest, hname⟩
      · obtain ⟨test, htest, hname⟩ := ihright hright
        exact ⟨test, .inr htest, hname⟩

/-! ### The first strategy without a position -/

/-- The first of some strategies that has no position. -/
def firstMissing? (positions : String → Option Position) (strategies : List String) : Option String :=
  strategies.find? fun strategy => (positions strategy).isNone

/-- A vote says what is wrong with the strategies that it reaches, and nothing when nothing is. -/
def Blames (positions : String → Option Position) (reached : List String) : Except String Bool → Prop
  | .ok _ => firstMissing? positions reached = none
  | .error strategy => firstMissing? positions reached = some strategy

/-- The step of either connective. -/
theorem blames_shortCircuit {settling : Bool} {first second : Except String Bool}
    {reached reached' : List String} (hfirst : Blames positions reached first)
    (hsecond : Blames positions reached' second) :
    Blames positions (reachedOfSides settling first reached reached')
      (shortCircuit settling first second) := by
  cases first with
  | error strategy => exact hfirst
  | ok value =>
      by_cases hsettled : value = settling
      · subst hsettled
        simpa [reachedOfSides, shortCircuit] using hfirst
      · have hgoes : value = !settling := Bool.eq_not.mpr hsettled
        subst hgoes
        have happend : firstMissing? positions (reached ++ reached') = firstMissing? positions reached' := by
          rw [firstMissing?, List.find?_append, ← firstMissing?, hfirst, Option.none_or, firstMissing?]
        simp only [reachedOfSides, if_true, shortCircuit, if_neg hsettled]
        cases second with
        | ok value => exact happend.trans hsecond
        | error strategy => exact happend.trans hsecond

theorem eval_blames (positions : String → Option Position) (vote : Vote) :
    Blames positions (vote.reached positions) (eval positions vote) := by
  induction vote with
  | atom test =>
      rw [eval, reached]
      cases hposition : positions test.strategy with
      | none => simp [Blames, firstMissing?, hposition]
      | some position => simp [Blames, firstMissing?, hposition]
  | and left right ihleft ihright =>
      rw [eval_and, reached]
      exact blames_shortCircuit ihleft ihright
  | or left right ihleft ihright =>
      rw [eval_or, reached]
      exact blames_shortCircuit ihleft ihright

theorem eval_eq_error_iff {strategy : String} :
    eval positions vote = .error strategy ↔
      firstMissing? positions (vote.reached positions) = some strategy := by
  have hblames := eval_blames positions vote
  cases heval : eval positions vote with
  | ok value =>
      rw [heval] at hblames
      exact iff_of_false (by simp) fun hmissing => by simp [hmissing, Blames] at hblames
  | error other =>
      rw [heval] at hblames
      rw [show firstMissing? positions (vote.reached positions) = some other from hblames]
      simp

/-- A vote has no value when it reaches a strategy without a position. -/
theorem exists_eval_eq_error_iff :
    (∃ strategy, eval positions vote = .error strategy) ↔
      ∃ strategy ∈ vote.reached positions, positions strategy = none := by
  simp only [eval_eq_error_iff, firstMissing?, ← Option.isSome_iff_exists, List.find?_isSome,
    Option.isNone_iff_eq_none]

/-! ### Strategies that are not mentioned -/

/-- The value of a vote depends on the positions of the strategies that it mentions. -/
theorem eval_congr (hagree : ∀ strategy ∈ vote.strategies, positions strategy = others strategy) :
    eval positions vote = eval others vote := by
  simp only [mem_strategies_iff, forall_exists_index, and_imp, forall_apply_eq_imp_iff₂] at hagree
  induction vote with
  | atom test => rw [eval, eval, hagree test (List.mem_singleton_self test)]
  | and left right ihleft ihright | or left right ihleft ihright =>
      simp only [eval_and, eval_or]
      rw [ihleft fun test htest => hagree test (List.mem_append_left _ htest),
        ihright fun test htest => hagree test (List.mem_append_right _ htest)]

end Backtest.Vote
