import Backtest.Config.Validation
import Backtest.Plan

/-!
# Plans in a configuration

The plan of a configuration is read from the section `strategy`, or from the section `aggregate` and
one section for each strategy that it lists.
-/

namespace Backtest.Config.Document

variable {α : Type} [Scalar α]

/-- The strategy that a section describes, under the given name. -/
def strategy (document : Document) (group name : String) : Except Error Strategy := do
  let kind ← document.kind group
  return {
    name
    kind
    long := document.nonBlank? group "long"
    cash := document.nonBlank? group "cash"
    short := document.nonBlank? group "short"
    expression := document.nonBlank? group "expression" }

def weights? (document : Document) : Except Error (Option (Weights α)) :=
  match document.nonBlank? aggregateGroup "weights" with
  | none => .ok none
  | some text =>
    ((Weights.ofText text).mapError fun fault =>
      .badValue aggregateGroup "weights" (.weights fault)).map some

def method (document : Document) : Except Error (Aggregate.Method α) :=
  match document.nonBlank? aggregateGroup "method" with
  | none => .error (.missingKey aggregateGroup "method")
  | some name =>
    match Text.lower name with
    | "weighted" => do
      let weights ← document.weights?
      return .weighted weights
    | "majority" => do
      let threshold ← document.number? aggregateGroup "threshold"
      let exitThreshold ← document.number? aggregateGroup "exit_threshold"
      return .majority threshold exitThreshold
    | "custom" =>
      match document.nonBlank? aggregateGroup "expression" with
      | some expression => .ok (.custom expression)
      | none => .error (.missingKey aggregateGroup "expression")
    | other => .error (.badValue aggregateGroup "method" (.unknownMethod other false))

/-- The name of a strategy that is not given one. -/
def unnamed : String := "Unnamed"

def plan (document : Document) : Except Error (Plan α) :=
  if document.isAggregate then do
    let strategies ← document.members.mapM fun name => document.strategy (memberGroup name) name
    let method ← document.method
    return .aggregate strategies method
  else do
    let name := (Text.nonBlank? (document.get? strategyGroup "name")).getD unnamed
    let strategy ← document.strategy strategyGroup name
    return .single strategy

/-- The name under which a plan is reported. -/
def planName (document : Document) : Plan α → String
  | .single strategy => strategy.name
  | .aggregate _ method =>
    (document.nonBlank? aggregateGroup "name").getD (method.name ++ " aggregate")

/-- The names of the sections for members of an aggregation, in order. -/
def memberSections (document : Document) : List String :=
  (document.names.filterMap memberOfGroup?).filter (· ≠ "")

/-- The sections for members whose name, the case of ASCII letters aside, is no strategy of an
aggregated plan. -/
def unusedSections (document : Document) : Plan α → List String
  | .single _ => []
  | .aggregate strategies _ =>
    document.memberSections.filter fun name =>
      !strategies.any fun strategy => Text.equalIgnoringCase strategy.name name

end Backtest.Config.Document
