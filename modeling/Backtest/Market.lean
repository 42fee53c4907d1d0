import Backtest.Calendar.DateText
import Backtest.Condition.Evaluation
import Backtest.Csv.Table
import Backtest.Market.Bar
import Backtest.Market.Columns

/-!
# Market data

What is known of a market: its price bars and, for the dates of these, the truth values of named
conditions. Market data is read from a table that has a row for each day; the rows may stand in any
order.
-/

namespace Backtest

structure Market (α : Type) where
  bars : List (Bar α)
  conditions : ConditionSet

namespace Market

/-- A day's bar and the values of the condition columns, in the order of the columns. -/
structure Row (α : Type) where
  bar : Bar α
  flags : List Bool

def invalid {β : Type} (fault : SchemaFault) : Except Error β := .error (.schema fault)

/-- The truth value that a text stands for. -/
def flagOfText? (text : String) : Option Bool :=
  match Text.lower text with
  | "true" | "1" | "yes" => some true
  | "false" | "0" | "no" => some false
  | _ => none

/-- The text in a column of the row with the given number. -/
def cell (row : List String) (number index : Nat) (title : String) : Except Error String :=
  match Text.trim (row[index]?.getD "") with
  | "" => invalid (.emptyValue number title)
  | text => .ok text

variable {α : Type} [Scalar α]

namespace Row

def number (columns : Columns) (texts : List String) (number : Nat) (column : Column) :
    Except Error α := do
  let text ← cell texts number (columns.index column) column.name
  match Scalar.ofText? text with
  | some value => return value
  | none => invalid (.badNumber number text column.name)

def flag (texts : List String) (number index : Nat) (title : String) : Except Error Bool := do
  let text ← cell texts number index title
  match flagOfText? text with
  | some value => return value
  | none => invalid (.notBoolean number text title)

/-- Reads a row. The date and the volume are looked at before the prices, the conditions last. -/
def ofTexts (columns : Columns) (number : Nat) (texts : List String) : Except Error (Row α) := do
  let dateText ← cell texts number (columns.index .date) Column.date.name
  match Date.ofText? dateText with
  | none => invalid (.badDate number dateText)
  | some date =>
    let volume : α ← Row.number columns texts number .volume
    if volume < 0 then invalid (.negativeVolume number (Scalar.text volume))
    let opening ← Row.number columns texts number .opening
    let high ← Row.number columns texts number .high
    let low ← Row.number columns texts number .low
    let close ← Row.number columns texts number .close
    let flags ← columns.conditions.mapM fun (index, title) => flag texts number index title
    return ⟨⟨date, opening, high, low, close, volume⟩, flags⟩

/-- The number of the row below the header, which is the first one. -/
def firstNumber : Nat := 2

/-- Reads rows, the first of which has the given number. -/
def ofTable (columns : Columns) (number : Nat) :
    List (Except Csv.Fault (List String)) → Except Error (List (Row α))
  | [] => .ok []
  | row :: rest => do
    let texts ← row.mapError fun fault => .schema (.record number fault)
    let first ← ofTexts columns number texts
    let others ← ofTable columns (number + 1) rest
    return first :: others

def date (row : Row α) : Date := row.bar.date

/-- The rows in the order of their dates; rows of one date stay in their order. -/
def sort (rows : List (Row α)) : List (Row α) :=
  rows.mergeSort fun first second => first.date ≤ second.date

end Row

/-- Adds the conditions of columns to a set; `index` is the place of the first of them among the
flags of a row. A later column replaces an earlier one of its name. -/
def addConditions (rows : List (Row α)) (conditions : ConditionSet) (index : Nat) :
    List (Nat × String) → Except Error ConditionSet
  | [] => .ok conditions
  | (_, title) :: rest =>
    match Series.ofLists (rows.map Row.date) (rows.map fun row => row.flags.getD index false) with
    | .error fault => invalid (.series fault)
    | .ok series => addConditions rows (conditions.insert title series) (index + 1) rest

def ofTable (symbol : String) (table : Csv.Table) : Except Error (Market α) := do
  let columns ← (Columns.ofHeader table.header).mapError fun column =>
    .schema (.missingColumn column.name)
  let rows ← Row.ofTable columns Row.firstNumber table.rows
  if rows.isEmpty then throw (.noData symbol)
  let rows := Row.sort rows
  let conditions ← addConditions rows .empty 0 columns.conditions
  return ⟨rows.map Row.bar, conditions⟩

/-- The market data of a file's contents. -/
def ofBytes (symbol : String) (bytes : Text.Bytes) : Except Error (Market α) := do
  let table ← (Csv.Table.ofBytes bytes).mapError fun fault => .schema (.header fault)
  ofTable symbol table

def fileName (symbol : String) : String := symbol ++ ".csv"

/-- The market data of the file at a path, of which either the contents are known or why they are
not. A directory can be opened and fails only when its header is to be read. -/
def ofFile (symbol path : String) :
    Except Storage.Fault Text.Bytes → Except Error (Market α)
  | .ok bytes => ofBytes symbol bytes
  | .error .isADirectory => invalid (.header (.system .isADirectory))
  | .error fault => .error (.unreadable path fault)

end Market

end Backtest
