import Backtest.Calendar.DateText
import Backtest.Csv.Fault
import Backtest.FeeConvention
import Backtest.Formula.Fault
import Backtest.Series
import Backtest.Strategy.Kind

/-!
# Errors

Everything that ends a run early. An error is a cause with what its message needs; numbers stand in
it as the text they are reported with, so that errors do not depend on the scalars of the run. Every
error belongs to one of four classes, which the exit status shows: the system, the configuration,
the expressions and parameters, the data.
-/

namespace Backtest

/-- What is wrong with data. -/
inductive SchemaFault
  | series (fault : Series.Fault)
  | misalignedConditions
  | misalignedSignals (first second : String)
  | noBars
  | barOrder
  | badClose (price : String) (date : Date)
  | uncoveredBar (date : Date)
  | header (fault : Csv.Fault)
  | missingColumn (name : String)
  | record (row : Nat) (fault : Csv.Fault)
  | emptyValue (row : Nat) (column : String)
  | badDate (row : Nat) (text : String)
  | badNumber (row : Nat) (text column : String)
  | negativeVolume (row : Nat) (volume : String)
  | notBoolean (row : Nat) (text column : String)
deriving DecidableEq, Repr

/-- What is wrong with rules or parameters. -/
inductive ValidationFault
  | needsLong (strategy : String)
  | needsSide (strategy side : String)
  | noSignals
  | duplicateStrategy (name : String)
  | badWeight (name value : String)
  | noWeight
  | threshold (value : String)
  | exitThreshold (threshold value : String)
  | initialCapital (value : String)
  | feeRate (value : String)
deriving DecidableEq, Repr

/-- What is wrong with the text of weights. -/
inductive WeightsFault
  | noColon (entry : String)
  | notANumber (name : String)
  | negative (name : String)
  | repeated (name : String)
deriving DecidableEq, Repr

/-- What is wrong with the value of a configuration key. -/
inductive ValueFault
  | notANumber (text : String)
  | initialCapital
  | feeRate
  | feeConvention (text : String)
  | riskFreeRate
  | varConfidence
  | strategyKind (text : String)
  | weights (fault : WeightsFault)
  | unlistedStrategy (name : String)
  | noWeight
  | threshold
  | exitThreshold
  | unknownMethod (name : String) (explained : Bool)
deriving DecidableEq, Repr

/-- Why a configuration text cannot be read. -/
inductive SourceFault
  | unclosedSection (line : Nat)
  | emptyKey (line : Nat)
  | notText
  | system (fault : Storage.Fault)
deriving DecidableEq, Repr

inductive Error
  | source (path : Option String) (fault : SourceFault)
  | missingKey (sectionName key : String)
  | badValue (sectionName key : String) (fault : ValueFault)
  | formula (refusal : Formula.Refusal)
  | validation (fault : ValidationFault)
  | unknownCondition (name : String)
  | schema (fault : SchemaFault)
  | noData (symbol : String)
  | unreadable (path : String) (fault : Storage.Fault)
  | unwritable (path : String) (fault : Storage.Fault)
  | system (fault : Storage.Fault)
deriving DecidableEq, Repr

def Series.Fault.message : Series.Fault → String
  | .length dates values => s!"series has {dates} dates but {values} values"
  | .order first second =>
    s!"series dates must be strictly ascending ({first.text} then {second.text})"

def SchemaFault.message : SchemaFault → String
  | series fault => fault.message
  | misalignedConditions => "condition series are not aligned to the same dates"
  | misalignedSignals first second =>
    s!"{first} and {second} signals are not aligned to the same dates"
  | noBars => "no price bars to simulate"
  | barOrder => "price bar dates must be unique and ascending"
  | badClose price date => s!"invalid close price {price} on {date.text}"
  | uncoveredBar date => s!"position signal has no value for {date.text}"
  | header fault => s!"CSV header error: {fault.message}"
  | missingColumn name => s!"missing required column '{name}'"
  | record row fault => s!"row {row}: CSV parse error: {fault.message}"
  | emptyValue row column => s!"row {row}: empty value in column '{column}'"
  | badDate row text => s!"row {row}: invalid date '{text}' (expected YYYY-MM-DD)"
  | badNumber row text column => s!"row {row}: invalid number '{text}' in column '{column}'"
  | negativeVolume row volume => s!"row {row}: negative volume {volume}"
  | notBoolean row text column => s!"row {row}: '{text}' in column '{column}' is not a boolean"

def ValidationFault.message : ValidationFault → String
  | needsLong strategy => s!"strategy '{strategy}' needs a long expression"
  | needsSide strategy side => s!"long_short strategy '{strategy}' needs a {side} expression"
  | noSignals => "no signals to combine"
  | duplicateStrategy name => s!"duplicate strategy name '{name}'"
  | badWeight name value => s!"weight for '{name}' must be a non-negative number, got {value}"
  | noWeight => "weights must sum to a positive total"
  | threshold value => s!"majority threshold must be in (0, 1], got {value}"
  | exitThreshold limit value => s!"exit threshold must be in [0, {limit}], got {value}"
  | initialCapital value => s!"initial capital must be at least 100, got {value}"
  | feeRate value => s!"fee rate must be in [0, 0.1), got {value}"

def WeightsFault.message : WeightsFault → String
  | noColon entry => s!"expected name:weight, got '{entry}'"
  | notANumber name => s!"weight for '{name}' is not a number"
  | negative name => s!"weight for '{name}' must be non-negative"
  | repeated name => s!"weight for '{name}' given twice"

def ValueFault.message : ValueFault → String
  | notANumber text => s!"'{text}' is not a number"
  | initialCapital => "initial_capital must be at least 100"
  | feeRate => "fee_rate must be in [0, 0.1)"
  | feeConvention text => FeeConvention.unknownMessage text
  | riskFreeRate => "risk_free_rate must be between 0 and 1"
  | varConfidence => "var_confidence must be strictly between 0 and 1"
  | strategyKind text => Strategy.Kind.unknownMessage text
  | weights fault => fault.message
  | unlistedStrategy name => s!"'{name}' is not listed in strategies"
  | noWeight => "weights must sum to a positive total"
  | threshold => "threshold must be in (0, 1]"
  | exitThreshold => "exit_threshold must be between 0 and threshold"
  | unknownMethod name true => s!"unknown method '{name}' (expected weighted, majority or custom)"
  | unknownMethod name false => s!"unknown method '{name}'"

def SourceFault.message : SourceFault → String
  | unclosedSection line =>
    s!"line {line}: Found opening bracket for section name but no closing bracket"
  | emptyKey line => s!"line {line}:0: Key cannot be empty"
  | notText => "stream did not contain valid UTF-8"
  | system fault => fault.message

namespace Error

def message : Error → String
  | source none fault => s!"config parse error in <inline>: {fault.message}"
  | source (some path) fault =>
    s!"config parse error in {path}: couldn't read {path}: {fault.message}"
  | missingKey sectionName key => s!"missing config key [{sectionName}] {key}"
  | badValue sectionName key fault =>
    s!"invalid config value [{sectionName}] {key}: {fault.message}"
  | formula refusal => refusal.message
  | validation fault => s!"validation error: {fault.message}"
  | unknownCondition name => s!"condition not found: {name}"
  | schema fault => s!"schema error: {fault.message}"
  | noData symbol => s!"no data for {symbol}"
  | unreadable path fault => s!"failed to read {path}: {fault.message}"
  | unwritable path fault => s!"failed to write {path}: {fault.message}"
  | system fault => fault.message

/-- The exit status of a run that an error ends. -/
def status : Error → Nat
  | unreadable .. | unwritable .. | system _ => 1
  | source .. | missingKey .. | badValue .. => 2
  | formula _ | validation _ | unknownCondition _ => 4
  | schema _ | noData _ => 5

end Error

end Backtest
