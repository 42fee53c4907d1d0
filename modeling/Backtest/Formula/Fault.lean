/-!
# Errors in a formula's text

A text that is no formula is refused at one place. Places are counted in bytes of UTF-8 from the
start of the text.
-/

namespace Backtest.Formula

/-- A formula has at most this many tokens. -/
def maxTokens : Nat := 50

/-- At most this many parentheses are open at once. -/
def maxDepth : Nat := 6

inductive Fault
  | empty
  | unexpectedCharacter (c : Char)
  | loneEqualsSign
  | noPosition (text : String)
  | tooManyTokens (count : Nat)
  | tooDeep
  | unknownCondition (name : String)
  | expected (wanted : String) (found : Option String)
  | afterFormula (found : String)
deriving DecidableEq, Repr

def Fault.message : Fault → String
  | empty => "expression is empty"
  | unexpectedCharacter c => s!"unexpected character '{c}'"
  | loneEqualsSign => "expected '=='"
  | noPosition text => s!"invalid position value '{text}' (expected 1, 0 or -1)"
  | tooManyTokens count => s!"expression too complex: {count} tokens (maximum {maxTokens})"
  | tooDeep => s!"expression nested too deeply (maximum depth {maxDepth})"
  | unknownCondition name => s!"unknown condition '{name}'"
  | expected wanted (some found) => s!"expected {wanted}, found '{found}'"
  | expected wanted none => s!"expected {wanted}, found end of input"
  | afterFormula found => s!"unexpected '{found}' after expression"

structure Refusal where
  fault : Fault
  position : Nat
deriving DecidableEq, Repr

namespace Refusal

def message (refusal : Refusal) : String :=
  s!"parse error at position {refusal.position}: {refusal.fault.message}"

/-- The text, a caret on the next line as many columns in as the position counts bytes, and the
message. -/
def context (refusal : Refusal) (text : String) : String :=
  let caret := String.ofList (List.replicate refusal.position ' ' ++ ['^'])
  s!"{text}\n{caret}\n{refusal.message}"

end Refusal

end Backtest.Formula
