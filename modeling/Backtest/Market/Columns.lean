import Backtest.Text.Blank
import Backtest.Text.LowerCase

/-!
# Columns of market data

A table of market data has a column for the date, for each price and for the volume. Their names are
found whatever their case and the blanks around them; of several columns of one name the first
counts. Every other column is a condition.
-/

namespace Backtest.Market

inductive Column
  | date
  | opening
  | high
  | low
  | close
  | volume
deriving DecidableEq, Repr

namespace Column

def name : Column → String
  | date => "date"
  | opening => "open"
  | high => "high"
  | low => "low"
  | close => "close"
  | volume => "volume"

/-- The columns in the order in which they are looked for. -/
def all : List Column := [date, opening, high, low, close, volume]

/-- The place of a column under a header. -/
def index? (header : List String) (column : Column) : Option Nat :=
  header.findIdx? fun title => Text.lower (Text.trim title) = column.name

end Column

/-- The places of the columns under a header. -/
structure Columns where
  index : Column → Nat
  conditions : List (Nat × String)

/-- The titles that are not those of the required columns, with their places from `start` on. -/
def conditionColumns (required : List Nat) (start : Nat) : List String → List (Nat × String)
  | [] => []
  | title :: rest =>
    if required.contains start then conditionColumns required (start + 1) rest
    else (start, Text.trim title) :: conditionColumns required (start + 1) rest

/-- The columns under a header, or the first required one that it lacks. -/
def Columns.ofHeader (header : List String) : Except Column Columns :=
  match Column.all.find? fun column => (column.index? header).isNone with
  | some missing => .error missing
  | none =>
    .ok
      { index := fun column => (column.index? header).getD 0
        conditions := conditionColumns (Column.all.filterMap (Column.index? header)) 0 header }

end Backtest.Market
