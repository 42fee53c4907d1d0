import Backtest.Storage.Fault
import Backtest.Storage.Path
import Backtest.Text.Utf8

/-!
# Hosts

What a command needs of the system that it runs on: files, directories, and a stream for its notes.
-/

namespace Backtest

class Host (m : Type → Type) where
  /-- The contents of the file at a path. -/
  readFile : String → m (Except Storage.Fault Text.Bytes)
  /-- Makes a directory in one that exists. -/
  makeDirectory : String → m (Except Storage.Fault Unit)
  isDirectory : String → m Bool
  /-- Writes a file, in place of the one that was there. -/
  writeFile : String → String → m (Except Storage.Fault Unit)
  /-- Writes a line to the stream of notes. -/
  note : String → m Unit

namespace Host

variable {m : Type → Type} [Monad m] [Host m]

def notes (lines : List String) : m Unit := lines.forM note

/-- Makes a directory, unless there is one. -/
def ensureDirectory (path : String) : m (Except Storage.Fault Unit) := do
  match ← makeDirectory path with
  | .ok () => return .ok ()
  | .error fault => return if ← isDirectory path then .ok () else .error fault

/-- Makes the first directory of a list inside the second, which is made in the same way if it does
not exist. -/
def makeNested : List String → m (Except Storage.Fault Unit)
  | [] => return .ok ()
  | path :: parents => do
    match ← ensureDirectory path with
    | .error .noSuchFile => do
      match ← makeNested parents with
      | .ok () => ensureDirectory path
      | .error fault => return .error fault
    | result => return result

/-- Makes a directory with those on its way that do not exist. -/
def makeDirectories (path : String) : m (Except Storage.Fault Unit) :=
  makeNested ((path :: Path.parents path).filter (· ≠ ""))

end Host

end Backtest
