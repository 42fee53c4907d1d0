import Backtest.Host
import Backtest.Storage.Tree

/-!
# A host in memory

A file tree and the notes that were written. Commands run on it as they do on a real system, and what
they leave behind can be looked at.
-/

namespace Backtest.Host

structure Memory where
  tree : Storage.Tree
  /-- The notes, the last one first. -/
  notes : List String

abbrev Simulated := StateM Memory

namespace Memory

def readFile (memory : Memory) (path : String) : Except Storage.Fault Text.Bytes :=
  memory.tree.read path

/-- The memory with a changed tree, or as it was where the change is refused. -/
def change (memory : Memory) : Except Storage.Fault Storage.Tree → Except Storage.Fault Unit × Memory
  | .ok tree => (.ok (), { memory with tree })
  | .error fault => (.error fault, memory)

def makeDirectory (memory : Memory) (path : String) : Except Storage.Fault Unit × Memory :=
  memory.change (memory.tree.makeDirectory path)

def isDirectory (memory : Memory) (path : String) : Bool := memory.tree.isDirectory path

def writeFile (memory : Memory) (path text : String) : Except Storage.Fault Unit × Memory :=
  memory.change (memory.tree.write path (Text.encode text))

def note (memory : Memory) (line : String) : Memory :=
  { memory with notes := line :: memory.notes }

/-- What the notes look like, every one ended by a line feed. -/
def transcript (memory : Memory) : String :=
  String.join (memory.notes.reverse.map (· ++ "\n"))

end Memory

instance : Host Simulated where
  readFile path := do return (← get).readFile path
  makeDirectory path := fun memory => memory.makeDirectory path
  isDirectory path := do return (← get).isDirectory path
  writeFile path text := fun memory => memory.writeFile path text
  note line := modify fun memory => memory.note line

end Backtest.Host
