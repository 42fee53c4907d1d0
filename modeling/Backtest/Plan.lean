import Backtest.Aggregate
import Backtest.Performance
import Backtest.Strategy

/-!
# Plans

A plan is what a run trades: one strategy, or several that are combined. Running a plan derives its
signal from the conditions of the market, simulates the signal on the bars, and judges the outcome.
-/

namespace Backtest

inductive Plan (α : Type)
  | single (strategy : Strategy)
  | aggregate (strategies : List Strategy) (method : Aggregate.Method α)

/-- What a plan's run leaves behind, with how its signal was combined. -/
structure Result (α : Type) where
  outcome : Outcome α
  performance : Performance α
  combination : Option (Combination α)

namespace Plan

def strategies {α : Type} : Plan α → List Strategy
  | single strategy => [strategy]
  | aggregate strategies _ => strategies

variable {α : Type} [Scalar α]

def namedSignal (conditions : ConditionSet) (strategy : Strategy) : Except Error NamedSignal := do
  let positions ← strategy.positions conditions
  return ⟨strategy.name, positions⟩

/-- The signal of a plan, and how it was combined. -/
def signal (plan : Plan α) (conditions : ConditionSet) :
    Except Error (Series Position × Option (Combination α)) :=
  match plan with
  | single strategy => do
    let positions ← strategy.positions conditions
    return (positions, none)
  | aggregate strategies method => do
    let signals ← strategies.mapM (namedSignal conditions)
    let combination ← Aggregate.combine signals method
    return (combination.positions, some combination)

def run [Roots α] (plan : Plan α) (bars : List (Bar α)) (conditions : ConditionSet)
    (terms : Terms α) (risk : RiskTerms α) : Except Error (Result α) := do
  let (signal, combination) ← plan.signal conditions
  let outcome ← Simulation.run terms bars signal
  return { outcome, performance := .ofOutcome outcome risk, combination }

end Plan

end Backtest
