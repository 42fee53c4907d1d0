import Backtest.Command
import Backtest.Scalar.Binary64

/-!
# The program

Runs the command that the arguments ask for on the file system, with the standard error stream for
its notes.
-/

namespace Backtest

namespace Storage.Fault

/-- The fault that a code of the system stands for. Some of the calls give the code negated. -/
def ofCode (code : UInt32) (details : String) : Fault :=
  match min code (-code) with
  | 2 => noSuchFile
  | 17 => fileExists
  | 20 => notADirectory
  | 21 => isADirectory
  | 36 => nameTooLong
  | code => other s!"{details} (os error {code})"

/-- The fault that an error of the system stands for. -/
def ofSystem : IO.Error → Fault
  | .noFileOrDirectory _ code details => ofCode code details
  | .alreadyExists _ code details => ofCode code details
  | .inappropriateType _ code details => ofCode code details
  | .invalidArgument _ code details => ofCode code details
  | .permissionDenied _ code details => ofCode code details
  | .resourceExhausted _ code details => ofCode code details
  | error => other (toString error)

end Storage.Fault

/-- The result of an action, with the error of the system as a fault. -/
def attempt {β : Type} (action : IO β) : IO (Except Storage.Fault β) := do
  match ← action.toBaseIO with
  | .ok value => return .ok value
  | .error cause => return .error (.ofSystem cause)

def isDirectory (path : String) : IO Bool := do
  match ← (IO.FS.realPath path).toBaseIO with
  | .ok found => found.isDir
  | .error _ => return false

instance : Host IO where
  readFile path := attempt do return (← IO.FS.readBinFile path).toList
  makeDirectory path := attempt (IO.FS.createDir path)
  isDirectory := isDirectory
  writeFile path text := attempt (IO.FS.writeFile path text)
  note line := IO.eprintln line

def usage : List String :=
  ["Usage:",
    "  backtest --config FILE [--output DIRECTORY] [--symbol NAME]",
    "  validate --expression FORMULA [--names LIST]",
    "  check --config FILE [--symbol NAME]"]

/-- The exit status of a call with arguments that ask for no command. -/
def usageStatus : Nat := 2

end Backtest

open Backtest

def main (arguments : List String) : IO UInt32 := do
  let status ← match Command.ofArguments? arguments with
    | some command => Command.run Binary64 command
    | none => do
      Host.notes usage
      pure usageStatus
  return status.toUInt32
