import Backtest.Condition.Parser
import Backtest.Error
import Backtest.NameTable
import Backtest.Series

/-!
# Evaluating conditions

A condition formula is evaluated over named series of truth values, date by date. Every name must
have a series, and series that meet in a connective must have the same dates.
-/

namespace Backtest

abbrev ConditionSet := NameTable (Series Bool)

namespace Condition

/-- Joins two series of one axis. -/
def combine (connective : Bool → Bool → Bool) (left right : Series Bool) :
    Except Error (Series Bool) :=
  if left.sameAxis right then .ok (left.zipWith connective right)
  else .error (.schema .misalignedConditions)

def eval (conditions : ConditionSet) : Condition → Except Error (Series Bool)
  | .atom name =>
    match conditions.get? name with
    | some series => .ok series
    | none => .error (.unknownCondition name)
  | .and left right => do
    let left ← eval conditions left
    let right ← eval conditions right
    combine (· && ·) left right
  | .or left right => do
    let left ← eval conditions left
    let right ← eval conditions right
    combine (· || ·) left right

/-- Reads a formula over the names of the conditions. -/
def parseOver (conditions : ConditionSet) (text : String) : Except Error Condition :=
  (parse conditions.names text).mapError .formula

def evalText (conditions : ConditionSet) (text : String) : Except Error (Series Bool) := do
  let condition ← parseOver conditions text
  condition.eval conditions

end Condition

end Backtest
