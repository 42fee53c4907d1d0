import Backtest.Text.Split

/-!
# Arguments

The first argument names the command and the others are its flags. Every flag takes a value: the
next argument, or what is attached behind an equals sign or directly to the letter of the flag. An
argument that begins with a dash is never a value, a lone dash excepted. A flag is given at most
once.
-/

namespace Backtest

inductive Command
  | backtest (config : String) (output symbol : Option String)
  | validate (expression names : String)
  | check (config : String) (symbol : Option String)
deriving DecidableEq, Repr

namespace Command

structure Flag where
  name : String
  letter : Option Char
  mayBeEmpty : Bool
deriving DecidableEq, Repr

namespace Flag

def config : Flag := ⟨"config", some 'c', false⟩

def output : Flag := ⟨"output", some 'o', false⟩

def symbol : Flag := ⟨"symbol", none, true⟩

def expression : Flag := ⟨"expression", some 'e', true⟩

def names : Flag := ⟨"names", some 'n', true⟩

def accepts (flag : Flag) (value : String) : Bool := flag.mayBeEmpty || value ≠ ""

end Flag

/-- The value attached to the letter of a flag. -/
def attachedToLetter : List Char → Option String
  | [] => none
  | '=' :: value => some (String.ofList value)
  | value => some (String.ofList value)

/-- The flag that an argument gives, with the value attached to it. -/
def readFlag? (flags : List Flag) (argument : String) : Option (Flag × Option String) :=
  match argument.toList with
  | '-' :: '-' :: text =>
    let (name, value) := match Text.splitFirst? (· = '=') text with
      | some (name, value) => (name, some (String.ofList value))
      | none => (text, none)
    (flags.find? fun flag => flag.name = String.ofList name).map fun flag => (flag, value)
  | '-' :: letter :: value =>
    (flags.find? fun flag => flag.letter = some letter).map fun flag =>
      (flag, attachedToLetter value)
  | _ => none

/-- An argument that can be the value of the flag before it. -/
def canBeValue (argument : String) : Bool :=
  argument = "-" || argument.toList.head? ≠ some '-'

/-- The values of the flags by name. -/
def readFlags (flags : List Flag) : List String → Option (List (String × String))
  | [] => some []
  | ["--"] => some []
  | argument :: rest =>
    match readFlag? flags argument, rest with
    | none, _ => none
    | some (flag, some value), rest => do
      let others ← readFlags flags rest
      if flag.accepts value then some ((flag.name, value) :: others) else none
    | some (_, none), [] => none
    | some (flag, none), value :: rest => do
      let others ← readFlags flags rest
      if canBeValue value && flag.accepts value then some ((flag.name, value) :: others) else none

/-- The values of flags of which none is given twice. -/
def flagValues (flags : List Flag) (arguments : List String) :
    Option (List (String × String)) := do
  let values ← readFlags flags arguments
  if (values.map Prod.fst).Nodup then some values else none

/-- The command that the arguments ask for. -/
def ofArguments? : List String → Option Command
  | "backtest" :: rest => do
    let values ← flagValues [.config, .output, .symbol] rest
    return backtest (← values.lookup "config") (values.lookup "output") (values.lookup "symbol")
  | "validate" :: rest => do
    let values ← flagValues [.expression, .names] rest
    return validate (← values.lookup "expression") ((values.lookup "names").getD "")
  | "check" :: rest => do
    let values ← flagValues [.config, .symbol] rest
    return check (← values.lookup "config") (values.lookup "symbol")
  | _ => none

end Command

end Backtest
