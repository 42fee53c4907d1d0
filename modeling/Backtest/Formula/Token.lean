import Backtest.Formula.Fault

/-!
# Tokens

Both languages have the two connectives and parentheses; all their other tokens are words of the
language. The two limits are checked on the tokens, before any of them is parsed.
-/

namespace Backtest.Formula

inductive Token (ω : Type)
  | word (value : ω)
  | conjunction
  | disjunction
  | opening
  | closing
deriving DecidableEq, Repr

/-- A token and the place of its first byte. -/
structure Located (τ : Type) where
  token : τ
  position : Nat
deriving DecidableEq, Repr

variable {ω : Type}

def Token.text (wordText : ω → String) : Token ω → String
  | word value => wordText value
  | conjunction => "AND"
  | disjunction => "OR"
  | opening => "("
  | closing => ")"

/-- The first parenthesis that opens one level too many, when `depth` are open already. A closing
parenthesis without a partner leaves the depth at zero. -/
def firstTooDeep? (depth : Nat) : List (Located (Token ω)) → Option Nat
  | [] => none
  | ⟨.opening, position⟩ :: rest =>
    if maxDepth ≤ depth then some position else firstTooDeep? (depth + 1) rest
  | ⟨.closing, _⟩ :: rest => firstTooDeep? (depth - 1) rest
  | _ :: rest => firstTooDeep? depth rest

/-- Too many tokens are reported at the first one too many, and before any depth. -/
def checkLimits (tokens : List (Located (Token ω))) : Except Refusal Unit :=
  match tokens[maxTokens]? with
  | some extra => .error ⟨.tooManyTokens tokens.length, extra.position⟩
  | none =>
    match firstTooDeep? 0 tokens with
    | some position => .error ⟨.tooDeep, position⟩
    | none => .ok ()

end Backtest.Formula
