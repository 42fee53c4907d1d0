import Backtest.Command.Failure
import Backtest.Plan

/-!
# Checking the formulas of a plan

Every formula that a plan gives is read over the names of the conditions before the plan runs, the
unused ones among them. A check yields the lines that report it.
-/

namespace Backtest.Plan

open Command (Failure)

abbrev Check := Except Failure (List String)

def checkFormula (names : List String) (strategy field text : String) : Check :=
  match Condition.parse names text with
  | .ok condition => .ok [s!"  {strategy}.{field}: {condition.render}"]
  | .error refusal => .error (.strategyFormula strategy field text refusal)

/-- A name in a vote that belongs to no strategy is only warned of. -/
def unknownVoterWarning (name : String) : String :=
  s!"warning: '{name}' is not an aggregated strategy; affected dates will be CASH"

def checkVote (members : List String) (text : String) : Check :=
  match Vote.parse text with
  | .ok vote =>
    let unknown := vote.strategies.filter fun name => !members.contains name
    .ok (s!"  aggregate.expression: {vote.render}" :: unknown.map unknownVoterWarning)
  | .error refusal => .error (.aggregateFormula text refusal)

variable {α : Type}

def strategyChecks (names : List String) (strategy : Strategy) : List Check :=
  strategy.expressions.map fun (field, text) => checkFormula names strategy.name field text

def voteChecks : Plan α → List Check
  | aggregate strategies (.custom expression) =>
    [checkVote (strategies.map Strategy.name) expression]
  | _ => []

/-- The checks of a plan in the order in which they are made. -/
def formulaChecks (plan : Plan α) (names : List String) : List Check :=
  plan.strategies.flatMap (strategyChecks names) ++ plan.voteChecks

end Backtest.Plan
