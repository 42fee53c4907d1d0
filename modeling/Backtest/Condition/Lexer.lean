import Backtest.Formula.Token
import Backtest.Text.Blank

/-!
# Tokens of the condition language

Words of ASCII letters, digits and underscores that do not start with a digit, and parentheses. Two
words are the connectives, in capitals only. White space of any kind stands between tokens and means
nothing.
-/

namespace Backtest.Condition

open Formula

def startsWord (c : Char) : Bool := c.isAlpha || c = '_'

def continuesWord (c : Char) : Bool := c.isAlphanum || c = '_'

def tokenOfWord (word : String) : Token String :=
  if word = "AND" then .conjunction
  else if word = "OR" then .disjunction
  else .word word

/-- The tokens of a text that starts at byte `position`. -/
def tokensFrom (position : Nat) : List Char → Except Refusal (List (Located (Token String)))
  | [] => .ok []
  | c :: rest =>
    if Text.isBlank c then tokensFrom (position + c.utf8Size) rest
    else if c = '(' then (⟨.opening, position⟩ :: ·) <$> tokensFrom (position + 1) rest
    else if c = ')' then (⟨.closing, position⟩ :: ·) <$> tokensFrom (position + 1) rest
    else if startsWord c then
      let word := c :: rest.takeWhile continuesWord
      (⟨tokenOfWord (String.ofList word), position⟩ :: ·) <$>
        tokensFrom (position + word.length) (rest.dropWhile continuesWord)
    else .error ⟨.unexpectedCharacter c, position⟩
termination_by text => text.length
decreasing_by
  all_goals simp only [List.length_cons]
  · omega
  · omega
  · omega
  · have := (List.dropWhile_suffix continuesWord (l := rest)).length_le
    omega

def tokens (text : String) : Except Refusal (List (Located (Token String))) :=
  tokensFrom 0 text.toList

end Backtest.Condition
