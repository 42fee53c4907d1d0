import Backtest.Formula.Parser
import Backtest.NameTable
import Backtest.Vote.Lexer

/-!
# Votes

A vote is a formula over tests of the positions that strategies hold on one day. It is evaluated from
left to right and no further than its value needs, so a strategy without a position matters only
where it is reached.
-/

namespace Backtest

/-- The strategy holds the position. -/
structure PositionTest where
  strategy : String
  position : Position
deriving DecidableEq, Repr

/-- A formula over tests of strategies' positions. -/
abbrev Vote := Formula PositionTest

namespace Vote

open Formula

/-- A test that is half read: its name, without or with the sign behind it. -/
inductive HalfTest
  | named (strategy : String)
  | compared (strategy : String)
deriving DecidableEq, Repr

def operandStart : String := "strategy test or '('"

/-- An operand is a name, the sign `==` and a position value. -/
def operands : Operands Word HalfTest PositionTest where
  wordText := Word.text
  wanted := operandStart
  start
    | .name strategy => .ok (.inl (.named strategy))
    | word => .error (.expected operandStart (some word.text))
  resume
    | .named strategy, .equals => some (.inl (.compared strategy))
    | .compared strategy, .value position => some (.inr ⟨strategy, position⟩)
    | _, _ => none
  missing
    | .named _ => "'=='"
    | .compared _ => "1, 0 or -1"

def parse (text : String) : Except Refusal Vote :=
  if Text.isBlankText text then .error ⟨.empty, 0⟩
  else do
    let tokens ← tokens text
    checkLimits tokens
    ofTokens operands text.utf8ByteSize tokens

def render (vote : Vote) : String :=
  Formula.text (fun test => s!"{test.strategy} == {test.position.sign}") vote

/-- The distinct strategies that a vote mentions, in order. -/
def strategies (vote : Vote) : List String :=
  NameTable.distinct ((Formula.atoms vote).map PositionTest.strategy)

/-- The value of a vote, or the first strategy met that has no position. -/
def eval (positions : String → Option Position) : Vote → Except String Bool
  | .atom test =>
    match positions test.strategy with
    | some position => .ok (position = test.position)
    | none => .error test.strategy
  | .and left right =>
    match eval positions left with
    | .ok true => eval positions right
    | decided => decided
  | .or left right =>
    match eval positions left with
    | .ok false => eval positions right
    | decided => decided

end Vote

end Backtest
