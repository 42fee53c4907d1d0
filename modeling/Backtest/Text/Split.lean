import Backtest.Text.Blank

/-!
# Splitting text

Lists in a configuration are separated by commas; blanks around an item do not count, and an item
that is nothing but blanks is no item.
-/

namespace Backtest.Text

/-- The pieces between the separators, empty ones included; there is always one more piece than
separators. -/
def pieces (separator : Char) : List Char → List (List Char)
  | [] => [[]]
  | c :: rest =>
    if c = separator then [] :: pieces separator rest
    else
      match pieces separator rest with
      | [] => [[c]]
      | piece :: others => (c :: piece) :: others

/-- What stands before and after the first character that a test accepts. -/
def splitFirst? (accepts : Char → Bool) : List Char → Option (List Char × List Char)
  | [] => none
  | c :: rest =>
    if accepts c then some ([], rest)
    else (splitFirst? accepts rest).map fun (before, after) => (c :: before, after)

/-- What stands before and after the last character that a test accepts. -/
def splitLast? (accepts : Char → Bool) (text : List Char) : Option (List Char × List Char) :=
  (splitFirst? accepts text.reverse).map fun (after, before) => (before.reverse, after.reverse)

def joinWith (separator : Char) : List (List Char) → List Char
  | [] => []
  | [piece] => piece
  | piece :: others => piece ++ separator :: joinWith separator others

/-- The items of a list separated by commas. -/
def items (text : String) : List String :=
  (((pieces ',' text.toList).map trimChars).filter (· ≠ [])).map String.ofList

/-- A text that is not blank. -/
def nonBlank? (text : Option String) : Option String :=
  text.filter fun text => !isBlankText text

end Backtest.Text
