import Backtest.Condition.Lexer
import Backtest.Formula.Parser

/-!
# Condition formulas

A condition formula is over names of conditions. Every name must be one of those that are available;
the first that is not is where the text is refused.
-/

namespace Backtest

/-- A formula over names of conditions. -/
abbrev Condition := Formula String

namespace Condition

open Formula

/-- An operand is one word, and nothing is ever half read. -/
def operands (available : List String) : Operands String Empty String where
  wordText word := word
  wanted := "condition or '('"
  start name :=
    if available.contains name then .ok (.inr name) else .error (.unknownCondition name)
  resume progress _ := nomatch progress
  missing progress := nomatch progress

/-- Reads a condition formula over the available names. -/
def parse (available : List String) (text : String) : Except Refusal Condition :=
  if Text.isBlankText text then .error ⟨.empty, 0⟩
  else do
    let tokens ← tokens text
    checkLimits tokens
    ofTokens (operands available) text.utf8ByteSize tokens

def render (condition : Condition) : String := Formula.text id condition

end Condition

end Backtest
