import Backtest.Command.Arguments
import Backtest.Command.Preparation
import Backtest.Command.Summary
import Backtest.Report

/-!
# Commands

A backtest prepares a run, simulates it, sums it up and, where a directory is given, writes its
report. A check only prepares it. A validation reads a single formula over given names.
-/

namespace Backtest.Command

variable {m : Type → Type} [Monad m] [Host m]

def runValidation (expression names : String) : Session m Unit :=
  match Condition.parse (Text.items names) expression with
  | .ok condition => Session.note s!"Expression is valid: {condition.render}"
  | .error refusal => throw (.formula expression refusal)

variable (α : Type) [Scalar α]

def runCheck (config : String) (symbol : Option String) : Session m Unit := do
  let prepared ← prepare α config symbol
  let count := prepared.setup.plan.strategies.length
  Session.notes ["", s!"Configuration is valid: {count} strategies on {prepared.symbol}"]

variable [Roots α]

def runBacktest (config : String) (output symbol : Option String) : Session m Unit := do
  let ⟨setup, symbol, market⟩ ← prepare α config symbol
  Session.note s!"Running backtest: {symbol} on {market.bars.length} bars"
  let result ← Session.require
    (setup.plan.run market.bars market.conditions setup.terms setup.risk)
  Session.notes (Summary.lines setup.name result)
  match output with
  | none => return
  | some directory =>
    let written : m (Except Error Unit) := (Report.write result directory setup.name).run
    Session.require (← written)
    Session.notes ["", s!"Reports written to: {directory}"]

def perform : Command → Session m Unit
  | backtest config output symbol => runBacktest α config output symbol
  | validate expression names => runValidation expression names
  | check config symbol => runCheck α config symbol

/-- Runs a command over the given scalars and yields its exit status. -/
def run (command : Command) : m Nat := do
  match ← (perform α command).run with
  | .ok () => return 0
  | .error failure => do
    Host.note failure.message
    return failure.status

end Backtest.Command
