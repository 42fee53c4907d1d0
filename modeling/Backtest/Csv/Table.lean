import Backtest.Csv.Record

/-!
# Tables

The first record of a table is its header. Every other record is a row and has as many fields as the
header. A row that cannot be read is kept with its fault, because the rows before it are looked at
first.
-/

namespace Backtest.Csv

/-- The texts of a record's fields. The first field that is not a text is reported. -/
def textsFrom (place : Place) (index : Nat) : List Text.Bytes → Except Fault (List String)
  | [] => .ok []
  | field :: rest => do
    let text ← (Text.decode field).mapError fun bad => .notText place index bad
    let texts ← textsFrom place (index + 1) rest
    return text :: texts

def Record.texts (record : Record) : Except Fault (List String) :=
  textsFrom record.place 0 record.fields

/-- The texts of a row below a header of `width` fields. -/
def Record.row (width : Nat) (record : Record) : Except Fault (List String) :=
  if record.fields.length = width then record.texts
  else .error (.fieldCount record.place record.fields.length width)

structure Table where
  header : List String
  rows : List (Except Fault (List String))

/-- The table of a text. Only a header that is not a text refuses it. -/
def Table.ofBytes (bytes : Text.Bytes) : Except Fault Table :=
  match records bytes with
  | [] => .ok ⟨[], []⟩
  | first :: others => do
    let header ← first.texts
    return ⟨header, others.map (Record.row first.fields.length)⟩

end Backtest.Csv
