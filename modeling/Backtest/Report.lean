import Backtest.Host
import Backtest.Report.Rows

/-!
# Reports

A report is written as four files. The first that cannot be written ends it, and those before it
stay.
-/

namespace Backtest.Report

variable {m : Type → Type} [Monad m] [Host m] {α : Type} [Scalar α]

def writeTable (result : Result α) (directory name : String) (table : Table) :
    ExceptT Error m Unit := do
  let path := path directory name table
  match ← Host.writeFile (m := m) path (table.text result) with
  | .ok () => return
  | .error fault => throw (.unwritable path fault)

/-- Writes the report of a run into a directory, which is made if it does not exist. -/
def write (result : Result α) (directory name : String) : ExceptT Error m Unit := do
  match ← Host.makeDirectories (m := m) directory with
  | .error fault => throw (.system fault)
  | .ok () => tables.forM (writeTable result directory name)

end Backtest.Report
