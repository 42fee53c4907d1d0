/-!
# Formulas

Boolean formulas over atoms of any kind. Conditions and votes are written in two languages with the
same connectives, so both are formulas, over names of conditions and over tests of a strategy's
position.
-/

namespace Backtest

inductive Formula (β : Type)
  | atom (value : β)
  | and (left right : Formula β)
  | or (left right : Formula β)
deriving DecidableEq, Repr

namespace Formula

variable {β : Type}

/-- The atoms from left to right, repeated ones included. -/
def atoms : Formula β → List β
  | atom value => [value]
  | and left right => left.atoms ++ right.atoms
  | or left right => left.atoms ++ right.atoms

/-- The number of nodes on the longest path from the root to an atom. -/
def height : Formula β → Nat
  | atom _ => 1
  | and left right => 1 + max left.height right.height
  | or left right => 1 + max left.height right.height

/-- The number of connectives. -/
def connectives : Formula β → Nat
  | atom _ => 0
  | and left right => left.connectives + right.connectives + 1
  | or left right => left.connectives + right.connectives + 1

/-- Every connective is written with its parentheses, so the text shows the grouping. -/
def text (atomText : β → String) : Formula β → String
  | atom value => atomText value
  | and left right => "(" ++ left.text atomText ++ " AND " ++ right.text atomText ++ ")"
  | or left right => "(" ++ left.text atomText ++ " OR " ++ right.text atomText ++ ")"

/-- The truth value under a truth value for every atom. -/
def holds (truth : β → Bool) : Formula β → Bool
  | atom value => truth value
  | and left right => left.holds truth && right.holds truth
  | or left right => left.holds truth || right.holds truth

end Formula

end Backtest
