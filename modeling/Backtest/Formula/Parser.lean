import Backtest.Formula
import Backtest.Formula.Token

/-!
# Parsing formulas

    formula     := conjunction ( OR conjunction )*
    conjunction := primary ( AND primary )*
    primary     := operand | '(' formula ')'

The parser reads the tokens from left to right and keeps, for every open parenthesis, the finished
disjuncts and the finished conjuncts of the formula inside it. Between two tokens either an operand
or a connective is due, or an operand of several words is half read. What an operand is made of is
left to the language.
-/

namespace Backtest.Formula

/-- The operands of a language over words `ω`: a word starts one, and further words complete it,
with a value of type `π` for what is half read. -/
structure Operands (ω π β : Type) where
  wordText : ω → String
  /-- What an operand, or an opening parenthesis in its place, is called in a message. -/
  wanted : String
  start : ω → Except Fault (π ⊕ β)
  resume : π → ω → Option (π ⊕ β)
  /-- What a half-read operand needs next. -/
  missing : π → String

/-- What one pair of parentheses, or the whole text, holds so far: the disjuncts before the last
`OR`, joined, and the conjuncts before the last `AND`, joined. -/
structure Level (β : Type) where
  disjuncts : Option (Formula β)
  conjuncts : Option (Formula β)
deriving DecidableEq, Repr

namespace Level

variable {β : Type}

def fresh : Level β := ⟨none, none⟩

/-- The last conjunction, when `operand` ends it. -/
def conjunctionWith (level : Level β) (operand : Formula β) : Formula β :=
  match level.conjuncts with
  | none => operand
  | some conjuncts => .and conjuncts operand

/-- The whole formula of a level, when `operand` ends it. -/
def formulaWith (level : Level β) (operand : Formula β) : Formula β :=
  match level.disjuncts with
  | none => level.conjunctionWith operand
  | some disjuncts => .or disjuncts (level.conjunctionWith operand)

end Level

/-- What is due next: an operand, the rest of one, or what may follow a finished operand. -/
inductive Stage (π β : Type)
  | operand
  | within (progress : π)
  | connective (operand : Formula β)
deriving DecidableEq, Repr

/-- The innermost level, the levels around it from the inside out, and what is due. -/
structure State (π β : Type) where
  level : Level β
  outer : List (Level β)
  stage : Stage π β
deriving DecidableEq, Repr

namespace State

variable {ω π β : Type}

def start : State π β := ⟨Level.fresh, [], .operand⟩

/-- Goes on with an operand that is half read or finished. -/
def take (state : State π β) : π ⊕ β → State π β
  | .inl progress => { state with stage := .within progress }
  | .inr value => { state with stage := .connective (.atom value) }

def expected (language : Operands ω π β) (wanted : String) (found : Token ω) : Fault :=
  .expected wanted (some (found.text language.wordText))

/-- What follows a finished operand. A token that fits nowhere is an error of the parenthesis that
it should have closed, if one is open. -/
def afterOperand (language : Operands ω π β) (state : State π β) (operand : Formula β)
    (token : Token ω) : Except Fault (State π β) :=
  match token, state.outer with
  | .conjunction, _ =>
    .ok { state with
      level := { state.level with conjuncts := some (state.level.conjunctionWith operand) }
      stage := .operand }
  | .disjunction, _ =>
    .ok { state with level := ⟨some (state.level.formulaWith operand), none⟩, stage := .operand }
  | .closing, level :: outer => .ok ⟨level, outer, .connective (state.level.formulaWith operand)⟩
  | _, [] => .error (.afterFormula (token.text language.wordText))
  | _, _ :: _ => .error (expected language "')'" token)

def step (language : Operands ω π β) (state : State π β) (token : Token ω) :
    Except Fault (State π β) :=
  match state.stage, token with
  | .operand, .word word => (language.start word).map state.take
  | .operand, .opening => .ok ⟨Level.fresh, state.level :: state.outer, .operand⟩
  | .operand, _ => .error (expected language language.wanted token)
  | .within progress, .word word =>
    match language.resume progress word with
    | some next => .ok (state.take next)
    | none => .error (expected language (language.missing progress) token)
  | .within progress, _ => .error (expected language (language.missing progress) token)
  | .connective operand, _ => afterOperand language state operand token

/-- The formula, if nothing more is due. -/
def finish (language : Operands ω π β) (state : State π β) : Except Fault (Formula β) :=
  match state.stage, state.outer with
  | .operand, _ => .error (.expected language.wanted none)
  | .within progress, _ => .error (.expected (language.missing progress) none)
  | .connective operand, [] => .ok (state.level.formulaWith operand)
  | .connective _, _ :: _ => .error (.expected "')'" none)

/-- Reads tokens up to the end of a text of `length` bytes. -/
def run (language : Operands ω π β) (length : Nat) (state : State π β) :
    List (Located (Token ω)) → Except Refusal (Formula β)
  | [] => (state.finish language).mapError fun fault => ⟨fault, length⟩
  | located :: rest =>
    match state.step language located.token with
    | .ok next => next.run language length rest
    | .error fault => .error ⟨fault, located.position⟩

end State

/-- The formula that a list of tokens spells, the limits aside. -/
def ofTokens {ω π β : Type} (language : Operands ω π β) (length : Nat)
    (tokens : List (Located (Token ω))) : Except Refusal (Formula β) :=
  State.start.run language length tokens

end Backtest.Formula
