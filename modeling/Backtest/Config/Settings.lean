import Backtest.Config.Document
import Backtest.Performance
import Backtest.Storage.Path

/-!
# Settings

The typed values of a configuration. A value that is blank counts as not given. The settings of a run
are built from the section `backtest`; a number that cannot be read leaves its default in place,
because a configuration is validated before anything is built from it.
-/

namespace Backtest.Config

def runGroup : String := "backtest"

namespace Document

/-- The value of a key without blanks around it, unless nothing is left. -/
def nonBlank? (document : Document) (group key : String) : Option String :=
  ((document.get? group key).map Text.trim).filter (· ≠ "")

variable {α : Type} [Scalar α]

/-- The finite number that a key has, if it has a value at all. -/
def number? (document : Document) (group key : String) : Except Error (Option α) :=
  match document.nonBlank? group key with
  | none => .ok none
  | some text =>
    match (Scalar.ofText? text).filter Scalar.isFinite with
    | some value => .ok (some value)
    | none => .error (.badValue group key (.notANumber text))

/-- The finite number that a key has, or a default. -/
def numberOr (document : Document) (group key : String) (default : α) : α :=
  match (document.get? group key).bind Scalar.ofText? with
  | some value => if Scalar.isFinite value then value else default
  | none => default

def feeConvention (document : Document) : Except Error FeeConvention :=
  match document.nonBlank? runGroup "fee_convention" with
  | none => .ok .absorbed
  | some text =>
    (FeeConvention.ofText text).mapError fun text =>
      .badValue runGroup "fee_convention" (.feeConvention text)

/-- The terms of a run and those of its figures. -/
def runSettings (document : Document) : Except Error (Terms α × RiskTerms α) := do
  let feeConvention ← document.feeConvention
  let number (key : String) (default : α) : α := document.numberOr runGroup key default
  return (
    { initialCapital := number "initial_capital" Terms.defaultCapital
      feeRate := number "fee_rate" Terms.defaultFeeRate
      feeConvention },
    { riskFreeRate := number "risk_free_rate" RiskTerms.defaultRiskFreeRate
      varConfidence := number "var_confidence" RiskTerms.defaultVarConfidence })

/-- The symbol to run on: the one asked for, unless it is blank, before the configured one. -/
def symbol (document : Document) (asked : Option String) : Except Error String :=
  match (asked.map Text.trim).filter (· ≠ "") with
  | some symbol => .ok symbol
  | none =>
    match document.nonBlank? runGroup "symbol" with
    | some symbol => .ok symbol
    | none => .error (.missingKey runGroup "symbol")

/-- The directory of the market data. A relative one is taken from where the configuration is. -/
def dataDirectory (document : Document) (path : String) : String :=
  let base := (Path.parent? path).getD "."
  match document.nonBlank? runGroup "data_dir" with
  | some directory => Path.join base directory
  | none => base

end Document

end Backtest.Config
