import Backtest.Storage.Path

/-!
# Names of report files

A report is four tables in one directory. Their names begin with the name of the strategy, reduced to
lower-case letters, digits and underscores.
-/

namespace Backtest.Report

/-- A strategy's name as the start of a file name. Every character other than an ASCII letter or
digit becomes an underscore. -/
def slug (name : String) : String :=
  let letters := (Text.trimChars name.toList).map fun c => if c.isAlphanum then c.toLower else '_'
  if letters = [] then "strategy" else String.ofList letters

inductive Table
  | equity
  | trades
  | roundTrips
  | metrics
deriving DecidableEq, Repr

def Table.name : Table → String
  | equity => "equity"
  | trades => "trades"
  | roundTrips => "round_trips"
  | metrics => "metrics"

/-- The tables in the order in which they are written. -/
def tables : List Table := [.equity, .trades, .roundTrips, .metrics]

def path (directory name : String) (table : Table) : String :=
  Path.join directory s!"{slug name}_{table.name}.csv"

def paths (directory name : String) : List String := tables.map (path directory name)

end Backtest.Report
