import Backtest.Aggregate.Weights
import Backtest.Config.Settings

/-!
# Validating a configuration

All values are checked before any data is loaded. The first fault in the order of the checks is the
one that is reported.
-/

namespace Backtest.Config

def aggregateGroup : String := "aggregate"

def strategyGroup : String := "strategy"

def memberStart : String := "strategy."

/-- The section of a strategy that is a member of an aggregation. -/
def memberGroup (name : String) : String := memberStart ++ name

/-- The member whose section has the given name. -/
def memberOfGroup? (group : String) : Option String :=
  if memberStart.toList.isPrefixOf group.toList then
    some (String.ofList (group.toList.drop memberStart.length))
  else none

namespace Document

variable {α : Type} [Scalar α]

/-- A number, where it is given, passes a test. -/
def checkNumber (document : Document) (key : String) (passes : α → Bool) (fault : ValueFault) :
    Except Error Unit := do
  match ← document.number? (α := α) runGroup key with
  | none => return
  | some value => if passes value then return else throw (.badValue runGroup key fault)

def checkRun (α : Type) [Scalar α] (document : Document) : Except Error Unit := do
  document.checkNumber (α := α) "initial_capital" (fun value => !(value < Terms.leastCapital))
    .initialCapital
  document.checkNumber (α := α) "fee_rate" (Scalar.isBelow 0 Terms.feeRateBound) .feeRate
  let _ ← document.feeConvention
  document.checkNumber (α := α) "risk_free_rate" (Scalar.isBelow 0 1) .riskFreeRate
  document.checkNumber (α := α) "var_confidence" (fun value => 0 < value && value < 1)
    .varConfidence

/-- The kind that a section gives its strategy. -/
def kind (document : Document) (group : String) : Except Error Strategy.Kind :=
  match document.nonBlank? group "type" with
  | none => .ok .longCash
  | some text =>
    (Strategy.Kind.ofText text).mapError fun text => .badValue group "type" (.strategyKind text)

/-- A section has the formulas that its kind of strategy needs. -/
def checkStrategy (document : Document) (group : String) : Except Error Unit := do
  let kind ← document.kind group
  let has (key : String) : Bool := (document.nonBlank? group key).isSome
  if !has "long" && !has "expression" then throw (.missingKey group "long")
  if kind = .longShort then
    if !has "long" then throw (.missingKey group "long")
    if !has "short" then throw (.missingKey group "short")

/-- Weights are given to listed strategies only, and not all of them are zero. -/
def checkWeights (α : Type) [Scalar α] (document : Document) (strategies : List String) :
    Except Error Unit :=
  match document.nonBlank? aggregateGroup "weights" with
  | none => .ok ()
  | some text => do
    let invalid (fault : ValueFault) : Error := .badValue aggregateGroup "weights" fault
    let weights : Weights α ← (Weights.ofText text).mapError fun fault => invalid (.weights fault)
    match weights.names.find? fun name => !strategies.contains name with
    | some name => throw (invalid (.unlistedStrategy name))
    | none => if Scalar.sum weights.values ≤ 0 then throw (invalid .noWeight)

/-- A threshold is a positive share, and an exit threshold no more than it. -/
def checkThresholds (α : Type) [Scalar α] (document : Document) : Except Error Unit := do
  match ← document.number? (α := α) aggregateGroup "threshold" with
  | none => return
  | some threshold =>
    if !(0 < threshold && threshold ≤ 1) then
      throw (.badValue aggregateGroup "threshold" .threshold)
    match ← document.number? aggregateGroup "exit_threshold" with
    | none => return
    | some exit =>
      if !Scalar.isWithin 0 threshold exit then
        throw (.badValue aggregateGroup "exit_threshold" .exitThreshold)

/-- The strategies that an aggregation lists. -/
def members (document : Document) : List String :=
  match document.nonBlank? aggregateGroup "strategies" with
  | some text => Text.items text
  | none => []

def checkMethod (α : Type) [Scalar α] (document : Document) (method : String)
    (strategies : List String) : Except Error Unit :=
  match Text.lower method with
  | "weighted" => document.checkWeights α strategies
  | "majority" => document.checkThresholds α
  | "custom" =>
    if (document.nonBlank? aggregateGroup "expression").isNone then
      .error (.missingKey aggregateGroup "expression")
    else .ok ()
  | other => .error (.badValue aggregateGroup "method" (.unknownMethod other true))

def checkAggregate (α : Type) [Scalar α] (document : Document) : Except Error Unit := do
  match document.nonBlank? aggregateGroup "method" with
  | none => throw (.missingKey aggregateGroup "method")
  | some method =>
    let strategies := document.members
    if strategies.isEmpty then throw (.missingKey aggregateGroup "strategies")
    strategies.forM fun name => document.checkStrategy (memberGroup name)
    document.checkMethod α method strategies

/-- A method of aggregation is given, if only a blank one. -/
def isAggregate (document : Document) : Bool := (document.get? aggregateGroup "method").isSome

/-- The strategies of the configuration and, where they are combined, their aggregation. -/
def checkStrategies (α : Type) [Scalar α] (document : Document) : Except Error Unit :=
  if document.isAggregate then document.checkAggregate α else document.checkStrategy strategyGroup

end Document

end Backtest.Config
