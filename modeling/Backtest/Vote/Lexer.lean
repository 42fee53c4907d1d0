import Backtest.Decimal.Numeral
import Backtest.Formula.Token
import Backtest.Position
import Backtest.Text.Blank

/-!
# Tokens of the vote language

Names, the sign `==`, position values, and parentheses. A position value is a run of digits with an
optional minus before it, read as a whole number, so leading zeros do not count. White space between
tokens is that of ASCII.
-/

namespace Backtest.Vote

open Formula

inductive Word
  | name (strategy : String)
  | equals
  | value (position : Position)
deriving DecidableEq, Repr

def Word.text : Word → String
  | name strategy => strategy
  | equals => "=="
  | value position => toString position.sign

def startsName (c : Char) : Bool := c.isAlpha || c = '_'

def continuesName (c : Char) : Bool := c.isAlphanum || c = '_'

def startsValue (c : Char) : Bool := c = '-' || c.isDigit

def tokenOfName (name : String) : Token Word :=
  if name = "AND" then .conjunction
  else if name = "OR" then .disjunction
  else .word (.name name)

/-- The position that a run of digits behind an optional minus stands for. -/
def positionOf? : List Char → Option Position
  | '-' :: digits => if digits = [] then none else Position.ofSign? (-(whole digits))
  | digits => Position.ofSign? (whole digits)
where
  whole (digits : List Char) : Int := Decimal.Numeral.valueOfDigits digits

/-- The tokens of a text that starts at byte `position`. -/
def tokensFrom (position : Nat) : List Char → Except Refusal (List (Located (Token Word)))
  | [] => .ok []
  | c :: rest =>
    if Text.isPlainSpace c then tokensFrom (position + 1) rest
    else if c = '(' then (⟨.opening, position⟩ :: ·) <$> tokensFrom (position + 1) rest
    else if c = ')' then (⟨.closing, position⟩ :: ·) <$> tokensFrom (position + 1) rest
    else if c = '=' then
      match rest with
      | '=' :: rest => (⟨.word .equals, position⟩ :: ·) <$> tokensFrom (position + 2) rest
      | _ => .error ⟨.loneEqualsSign, position⟩
    else if startsValue c then
      let text := c :: rest.takeWhile Char.isDigit
      match positionOf? text with
      | some value =>
        (⟨.word (.value value), position⟩ :: ·) <$>
          tokensFrom (position + text.length) (rest.dropWhile Char.isDigit)
      | none => .error ⟨.noPosition (String.ofList text), position⟩
    else if startsName c then
      let name := c :: rest.takeWhile continuesName
      (⟨tokenOfName (String.ofList name), position⟩ :: ·) <$>
        tokensFrom (position + name.length) (rest.dropWhile continuesName)
    else .error ⟨.unexpectedCharacter c, position⟩
termination_by text => text.length
decreasing_by
  all_goals simp only [List.length_cons]
  · omega
  · omega
  · omega
  · omega
  · have := (List.dropWhile_suffix Char.isDigit (l := rest)).length_le
    omega
  · have := (List.dropWhile_suffix continuesName (l := rest)).length_le
    omega

def tokens (text : String) : Except Refusal (List (Located (Token Word))) :=
  tokensFrom 0 text.toList

end Backtest.Vote
