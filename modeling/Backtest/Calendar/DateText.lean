import Backtest.Calendar.Date
import Backtest.Decimal.Numeral
import Backtest.Text.Blank

/-!
# Dates as text

Dates are written `YYYY-MM-DD`. A year outside 0 to 9999 is written with its sign and at least four
digits. The reader is more lenient: blanks may stand before each of the three numbers, month and day
may have one digit, and a year may have up to four digits, or any number of them behind a sign.
-/

namespace Backtest.Date

/-- A number in decimal digits, with zeros in front up to a width. -/
def zeroFilled (width value : Nat) : List Char :=
  let digits := Nat.toDigits 10 value
  List.replicate (width - digits.length) '0' ++ digits

def yearText (year : Int) : List Char :=
  if 0 ≤ year ∧ year ≤ 9999 then zeroFilled 4 year.toNat
  else (if year < 0 then '-' else '+') :: zeroFilled 4 year.natAbs

def text (date : Date) : String :=
  let (year, month, day) := date.toCivil
  String.ofList <|
    yearText year ++ '-' :: zeroFilled 2 month.toNat ++ '-' :: zeroFilled 2 day.toNat

/-- A number of one to `width` digits at the start of the text, behind blanks. -/
def digits? (width : Nat) (text : List Char) : Option (Nat × List Char) :=
  let figures := (text.take width).takeWhile Char.isDigit
  if figures = [] then none
  else some (Decimal.Numeral.valueOfDigits figures, text.drop figures.length)

def number? (width : Nat) (text : List Char) : Option (Nat × List Char) :=
  digits? width (Text.trimLeft text)

/-- A year: up to four digits, or a sign and any number of digits. -/
def year? (text : List Char) : Option (Int × List Char) :=
  match Text.trimLeft text with
  | '-' :: rest => (digits? rest.length rest).map fun (value, after) => (-(value : Int), after)
  | '+' :: rest => (digits? rest.length rest).map fun (value, after) => ((value : Int), after)
  | rest => (digits? 4 rest).map fun (value, after) => ((value : Int), after)

def dash? : List Char → Option (List Char)
  | '-' :: rest => some rest
  | _ => none

def ofChars? (text : List Char) : Option Date := do
  let (year, afterYear) ← year? text
  let (month, afterMonth) ← number? 2 (← dash? afterYear)
  let (day, afterDay) ← number? 2 (← dash? afterMonth)
  if afterDay = [] then ofCivil? year month day else none

def ofText? (text : String) : Option Date := ofChars? text.toList

end Backtest.Date
