import Backtest.Text.Split

/-!
# Paths

Paths are texts with slashes between their components. A path keeps its spelling when it is joined to
another one; only its parent is found through its components, where doubled slashes, a slash at the
end and dots inside do not count.
-/

namespace Backtest.Path

def isAbsolute (path : String) : Bool := path.toList.head? = some '/'

/-- The path of `name` inside the directory `base`. An absolute name stands for itself. -/
def join (base name : String) : String :=
  if isAbsolute name then name
  else if base.isEmpty || base.toList.getLast? = some '/' then base ++ name
  else base ++ "/" ++ name

/-- The root, or the dot for the current directory, that a path starts with. -/
def splitStart : List Char → List Char × List Char
  | '/' :: rest => (['/'], rest)
  | ['.'] => (['.'], [])
  | '.' :: '/' :: rest => (['.'], '/' :: rest)
  | path => ([], path)

/-- A piece between two slashes that is no component. -/
def isSkipped (piece : List Char) : Bool := piece = [] || piece = ['.']

/-- The paths that are left when components are taken off one after the other, given what the path
starts with and its pieces from the last one on. -/
def parentsFrom (start : List Char) : List (List Char) → List String
  | [] => if start = ['.'] then [""] else []
  | piece :: before =>
    if isSkipped piece then parentsFrom start before
    else
      let kept := (before.dropWhile isSkipped).reverse
      String.ofList (start ++ Text.joinWith '/' kept) :: parentsFrom start before

/-- The parent of a path, the parent of that, and so on. A root and the empty path have none. -/
def parents (path : String) : List String :=
  let (start, body) := splitStart path.toList
  parentsFrom start (Text.pieces '/' body).reverse

/-- The path without its last component. -/
def parent? (path : String) : Option String := (parents path).head?

end Backtest.Path
