import Backtest.Condition.Evaluation
import Backtest.Position
import Backtest.Strategy.Kind
import Backtest.Text.Split

/-!
# Strategies

A strategy is a set of condition formulas that decide on every day what to hold. It enters a long
position where its long formula holds; a strategy of the first kind leaves it where the cash formula
holds, one of the second kind goes short where only the short formula holds. A strategy without a
long formula may give a single formula instead, which is then the whole rule.
-/

namespace Backtest

structure Strategy where
  name : String
  kind : Strategy.Kind
  long : Option String
  cash : Option String
  short : Option String
  /-- The single formula of a strategy without a long formula. -/
  expression : Option String
deriving DecidableEq, Repr

namespace Strategy

/-- The formulas that are given, by field and in the order in which they are looked at. -/
def expressions (strategy : Strategy) : List (String × String) :=
  [("long", strategy.long), ("cash", strategy.cash), ("short", strategy.short),
    ("expression", strategy.expression)].filterMap fun (field, text) => text.map (field, ·)

/-! ### Positions from truth values -/

/-- Long where the condition holds. -/
def longWhere (long : Series Bool) : Series Position :=
  long.map fun long => if long then .long else .cash

/-- Long where the first condition holds and the second does not. -/
def longUnless (long cash : Series Bool) : Except Error (Series Position) :=
  if long.sameAxis cash then
    .ok (long.zipWith (fun long cash => if long && !cash then .long else .cash) cash)
  else .error (.schema (.misalignedSignals "long" "cash"))

/-- Long where the first condition holds, else short where the second does. -/
def longOrShort (long short : Series Bool) : Except Error (Series Position) :=
  if long.sameAxis short then
    .ok (long.zipWith (fun long short => if long then .long else if short then .short else .cash)
      short)
  else .error (.schema (.misalignedSignals "long" "short"))

/-! ### Positions of a strategy -/

/-- The positions that a strategy takes under the given conditions. The formula that decides entries
is evaluated first, so its errors come before those of a missing side. -/
def positions (strategy : Strategy) (conditions : ConditionSet) :
    Except Error (Series Position) := do
  let long := Text.nonBlank? strategy.long
  match long <|> Text.nonBlank? strategy.expression with
  | none => .error (.validation (.needsLong strategy.name))
  | some entryText =>
    let entry ← Condition.evalText conditions entryText
    match strategy.kind, long with
    | .longCash, none => .ok (longWhere entry)
    | .longCash, some _ =>
      match Text.nonBlank? strategy.cash with
      | none => .ok (longWhere entry)
      | some cashText =>
        let cash ← Condition.evalText conditions cashText
        longUnless entry cash
    | .longShort, none => .error (.validation (.needsSide strategy.name "long"))
    | .longShort, some _ =>
      match Text.nonBlank? strategy.short with
      | none => .error (.validation (.needsSide strategy.name "short"))
      | some shortText =>
        let short ← Condition.evalText conditions shortText
        longOrShort entry short

end Strategy

end Backtest
