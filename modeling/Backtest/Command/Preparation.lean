import Backtest.Command.FormulaCheck
import Backtest.Config.Reader
import Backtest.Config.Setup
import Backtest.Host
import Backtest.Market

/-!
# Preparing a run

The configuration is read and checked, then the market data that it names, then the formulas over
the conditions of the market. Every stage is noted, and the first failure ends the preparation.
-/

namespace Backtest.Command

structure Prepared (α : Type) where
  setup : Setup α
  symbol : String
  market : Market α

/-- A command that runs on a host and may fail. -/
abbrev Session (m : Type → Type) := ExceptT Failure m

namespace Session

variable {m : Type → Type} [Monad m] [Host m]

def note (line : String) : Session m Unit := (Host.note line : m Unit)

def notes (lines : List String) : Session m Unit := (Host.notes lines : m Unit)

def read (path : String) : Session m (Except Storage.Fault Text.Bytes) :=
  (Host.readFile path : m _)

/-- The value of a computation whose error ends the command. -/
def require {β : Type} (result : Except Error β) : Session m β :=
  .mk (pure (result.mapError .error))

/-- Makes checks in order and notes their lines, up to the first that fails. -/
def noteChecks : List Plan.Check → Session m Unit
  | [] => return
  | .ok lines :: rest => do
    notes lines
    noteChecks rest
  | .error failure :: _ => throw failure

end Session

def unusedWarning (name : String) : String :=
  s!"warning: [{Config.memberGroup name}] is not listed in [aggregate] strategies"

/-- The number of bars and conditions of a market, and its first and last date. -/
def marketLine {α : Type} (market : Market α) : String :=
  let first := (market.bars.head?.map fun bar => bar.date.text).getD ""
  let last := (market.bars.getLast?.map fun bar => bar.date.text).getD ""
  s!"  {market.bars.length} bars, {market.conditions.size} conditions ({first} to {last})"

variable {m : Type → Type} [Monad m] [Host m] (α : Type) [Scalar α]

def prepare (path : String) (asked : Option String) : Session m (Prepared α) := do
  Session.note s!"Loading config from {path}"
  let document ← Session.require (Config.Document.ofFile path (← Session.read path))
  let setup : Setup α ← Session.require document.setup
  Session.note s!"Strategy: {setup.name}"
  Session.notes ((document.unusedSections setup.plan).map unusedWarning)
  let symbol ← Session.require (document.symbol asked)
  let directory := document.dataDirectory path
  Session.note s!"Loading {symbol} from {directory}"
  let marketPath := Path.join directory (Market.fileName symbol)
  let market : Market α ←
    Session.require (Market.ofFile symbol marketPath (← Session.read marketPath))
  Session.note (marketLine market)
  Session.note "Parsing expressions:"
  Session.noteChecks (setup.plan.formulaChecks market.conditions.names)
  return { setup, symbol, market }

end Backtest.Command
