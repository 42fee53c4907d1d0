import Backtest.Error

/-!
# Failures

Why a command ends without success. A formula that cannot be read is shown with a mark below the
place of its fault.
-/

namespace Backtest.Command

inductive Failure
  | error (cause : Error)
  | formula (text : String) (refusal : Formula.Refusal)
  | strategyFormula (strategy field text : String) (refusal : Formula.Refusal)
  | aggregateFormula (text : String) (refusal : Formula.Refusal)
deriving DecidableEq, Repr

namespace Failure

def message : Failure → String
  | error cause => s!"error: {cause.message}"
  | formula text refusal => s!"error: {refusal.context text}"
  | strategyFormula strategy field text refusal =>
    s!"error: failed to parse {field} of strategy '{strategy}':\n{refusal.context text}"
  | aggregateFormula text refusal =>
    s!"error: failed to parse aggregate expression:\n{refusal.context text}"

def cause : Failure → Error
  | error cause => cause
  | formula _ refusal | strategyFormula _ _ _ refusal | aggregateFormula _ refusal =>
    .formula refusal

def status (failure : Failure) : Nat := failure.cause.status

end Failure

end Backtest.Command
