import Backtest.Storage.Fault

/-!
# Errors in a table's text

A table is refused when a record has another number of fields than the first one, or when a field is
not UTF-8. Either is reported with the place where the record starts.
-/

namespace Backtest.Csv

/-- Where a record starts. Records are counted from zero, lines from one, and bytes from zero. -/
structure Place where
  record : Nat
  line : Nat
  byte : Nat
deriving DecidableEq, Repr

inductive Fault
  | fieldCount (place : Place) (found expected : Nat)
  | notText (place : Place) (field : Nat) (index : Nat)
  | system (fault : Storage.Fault)
deriving DecidableEq, Repr

def Fault.message : Fault → String
  | fieldCount place found expected =>
    s!"CSV error: record {place.record} (line: {place.line}, byte: {place.byte}): "
      ++ s!"found record with {found} fields, but the previous record has {expected} fields"
  | notText place field index =>
    s!"CSV parse error: record {place.record} (line {place.line}, field: {field}, "
      ++ s!"byte: {place.byte}): invalid utf-8: "
      ++ s!"invalid UTF-8 in field {field} near byte index {index}"
  | system fault => fault.message

end Backtest.Csv
