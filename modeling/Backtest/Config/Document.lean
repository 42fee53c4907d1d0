import Backtest.NameTable
import Backtest.Text.LowerCase
import Backtest.Text.Split

/-!
# Configuration documents

A configuration is a table of sections, each a table of keys. Names of both are kept in lower case
and looked up in lower case, so their case never matters. A key may stand without a value.
-/

namespace Backtest.Config

abbrev Group := NameTable (Option String)

structure Document where
  groups : NameTable Group

namespace Document

def empty : Document := ⟨.empty⟩

/-- The names of the sections in order. -/
def names (document : Document) : List String := document.groups.names

/-- The value of a key, if it has one. -/
def get? (document : Document) (group key : String) : Option String :=
  match document.groups.get? (Text.lower group) with
  | none => none
  | some entries => (entries.get? (Text.lower key)).join

/-- Opens a section, which keeps what it already holds. -/
def openGroup (document : Document) (group : String) : Document :=
  ⟨document.groups.insert group ((document.groups.get? group).getD .empty)⟩

/-- Sets a key of a section; a later value replaces an earlier one. -/
def set (document : Document) (group key : String) (value : Option String) : Document :=
  ⟨document.groups.insert group
    (((document.groups.get? group).getD .empty).insert key value)⟩

end Document

end Backtest.Config
