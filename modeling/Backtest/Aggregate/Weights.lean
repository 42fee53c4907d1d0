import Backtest.Error
import Backtest.NameTable
import Backtest.Scalar
import Backtest.Text.Split

/-!
# Weights

The weights of an aggregation are written `name:weight, name:weight`. Every weight is a finite number
that is not negative, and no strategy is given two.
-/

namespace Backtest

abbrev Weights (α : Type) := NameTable α

namespace Weights

variable {α : Type} [Scalar α]

/-- One entry: a name before the first colon and a number behind it. -/
def entryOf (text : String) : Except WeightsFault (String × α) :=
  match Text.splitFirst? (· = ':') text.toList with
  | none => .error (.noColon text)
  | some (before, after) =>
    let name := String.ofList (Text.trimChars before)
    match Scalar.ofText? (α := α) (String.ofList (Text.trimChars after)) with
    | none => .error (.notANumber name)
    | some weight =>
      if !Scalar.isFinite weight || weight < 0 then .error (.negative name)
      else .ok (name, weight)

def addEntry (weights : Weights α) (text : String) : Except WeightsFault (Weights α) :=
  match entryOf text with
  | .error fault => .error fault
  | .ok (name, weight) =>
    if weights.contains name then .error (.repeated name) else .ok (weights.insert name weight)

def ofText (text : String) : Except WeightsFault (Weights α) :=
  (Text.items text).foldlM addEntry NameTable.empty

end Weights

end Backtest
