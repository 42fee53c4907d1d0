import Backtest.Storage.Fault
import Backtest.Storage.Path
import Backtest.Text.Utf8

/-!
# File trees

A file tree holds files and directories by the names on their way from the current directory. Paths
are followed piece by piece: a dot or a doubled slash stays where it is, two dots go up, and every
piece but the last must be a directory. The root and the directories above the current one exist,
and nothing else is known of them.
-/

namespace Backtest.Storage

/-- The names from the current directory to a file or a directory. What an absolute path leads to
begins with the name of the root, and what stands above the current directory with two dots. -/
abbrev Location := List String

def root : String := "/"

def above : String := ".."

inductive Node
  | file (contents : Text.Bytes)
  | directory
deriving DecidableEq, Repr

structure Tree where
  nodes : List (Location × Node)

namespace Tree

def empty : Tree := ⟨[]⟩

/-- What stands at a location. The current directory is the location without names. -/
def node? (tree : Tree) (location : Location) : Option Node :=
  if location = [root] ∨ location.all (· = above) then some .directory
  else tree.nodes.lookup location

def put (tree : Tree) (location : Location) (node : Node) : Tree :=
  ⟨(location, node) :: tree.nodes.filter fun (other, _) => other ≠ location⟩

/-- The files below the current directory. -/
def files (tree : Tree) : List (Location × Text.Bytes) :=
  tree.nodes.filterMap fun (location, node) =>
    match node with
    | .file contents =>
      if location.head? = some root ∨ location.head? = some above then none
      else some (location, contents)
    | .directory => none

/-- A file's name has at most this many bytes. -/
def longestName : Nat := 255

/-- A path has at most this many bytes. -/
def longestPath : Nat := 4095

/-- The location of the directory that holds another one. -/
def ascend (location : Location) : Location :=
  if location = [root] then location
  else if location.all (· = above) then location ++ [above]
  else location.dropLast

/-- The location that one piece of a path leads to from a directory. -/
def enter (location : Location) (piece : String) : Location :=
  if piece = "" ∨ piece = "." then location
  else if piece = ".." then ascend location
  else location ++ [piece]

/-- One step from a location, which must be a directory. What it leads to need not exist. -/
def step (tree : Tree) (location : Location) (piece : String) : Except Fault Location :=
  match tree.node? location with
  | none => .error .noSuchFile
  | some (.file _) => .error .notADirectory
  | some .directory =>
    if longestName < piece.utf8ByteSize then .error .nameTooLong else .ok (enter location piece)

/-- Follows the pieces of a path from a location. -/
def follow (tree : Tree) (location : Location) (pieces : List String) : Except Fault Location :=
  pieces.foldlM tree.step location

def piecesOf (path : String) : List String := (Text.pieces '/' path.toList).map String.ofList

/-- Where the pieces of a path are followed from. -/
def startOf (path : String) : Location := if Path.isAbsolute path then [root] else []

/-- No path that the system takes is empty, too long, or holds a null. -/
def checkPath (path : String) : Except Fault Unit :=
  if path.toList.contains '\x00' then .error .nameWithNull
  else if path = "" then .error .noSuchFile
  else if longestPath < path.utf8ByteSize then .error .nameTooLong
  else .ok ()

def locate (tree : Tree) (path : String) : Except Fault Location := do
  checkPath path
  tree.follow (startOf path) (piecesOf path)

def read (tree : Tree) (path : String) : Except Fault Text.Bytes := do
  match tree.node? (← tree.locate path) with
  | some (.file contents) => return contents
  | some .directory => throw .isADirectory
  | none => throw .noSuchFile

/-- Writes a file, in place of the one that was there. -/
def write (tree : Tree) (path : String) (contents : Text.Bytes) : Except Fault Tree := do
  let location ← tree.locate path
  match tree.node? location with
  | some .directory => throw .isADirectory
  | _ => return tree.put location (.file contents)

def isDirectory (tree : Tree) (path : String) : Bool :=
  match tree.locate path with
  | .ok location => tree.node? location = some .directory
  | .error _ => false

/-- The piece of a path that names a new directory, with the pieces before it. Slashes at the end do
not count. -/
def splitName (path : String) : List String × Option String :=
  match (piecesOf path).reverse.dropWhile (· = "") with
  | [] => ([], none)
  | last :: before => (before.reverse, some last)

/-- Makes a directory, whose parent must exist. No name ends in a dot, so a path that does leads to
a directory that is already there, if to any. -/
def makeDirectory (tree : Tree) (path : String) : Except Fault Tree := do
  checkPath path
  let (before, name) := splitName path
  let parent ← tree.follow (startOf path) before
  let location ← tree.step parent (name.getD "")
  if name = some "." ∨ name = some ".." then throw .fileExists
  match tree.node? location with
  | some _ => throw .fileExists
  | none => return tree.put location .directory

end Tree

end Backtest.Storage
