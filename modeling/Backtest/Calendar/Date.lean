/-!
# Dates

A date is the number of a day, so that order and distance are those of the integers. Years, months
and days of the proleptic Gregorian calendar appear only where dates are read and written.
-/

namespace Backtest

/-- The day `number` days after the first of March of the year 0. -/
structure Date where
  number : Int
deriving DecidableEq, Repr

namespace Date

instance : LT Date := ⟨fun left right => left.number < right.number⟩

instance : LE Date := ⟨fun left right => left.number ≤ right.number⟩

instance : DecidableLT Date := fun left right => inferInstanceAs (Decidable (left.number < right.number))

instance : DecidableLE Date := fun left right => inferInstanceAs (Decidable (left.number ≤ right.number))

theorem lt_trans {first second third : Date} (h : first < second) (h' : second < third) :
    first < third :=
  Int.lt_trans h h'

instance : Trans (α := Date) (· < ·) (· < ·) (· < ·) := ⟨lt_trans⟩

/-- The days from one date to another, negative when the second comes first. -/
def daysTo (start finish : Date) : Int := finish.number - start.number

/-! ### The civil calendar

The calendar repeats every 400 years. Years are taken to start in March, which puts the leap day at
their end and makes the months from March on a fixed pattern of five.
-/

def daysInCycle : Int := 146097

/-- The days of a cycle before its year `year`, and the days of a year before its month `month`;
both count from zero, the month from March. -/
def daysBeforeYear (year : Int) : Int := 365 * year + year / 4 - year / 100

def daysBeforeMonth (month : Int) : Int := (153 * month + 2) / 5

/-- The date of a year, month and day, where the day exists. -/
def ofCivil (year month day : Int) : Date :=
  let shifted := if month ≤ 2 then year - 1 else year
  let monthFromMarch := (month + 9) % 12
  ⟨shifted / 400 * daysInCycle + daysBeforeYear (shifted % 400)
    + daysBeforeMonth monthFromMarch + (day - 1)⟩

/-- Year, month and day of a date. -/
def toCivil (date : Date) : Int × Int × Int :=
  let cycle := date.number / daysInCycle
  let dayOfCycle := date.number % daysInCycle
  let yearOfCycle :=
    (dayOfCycle - dayOfCycle / 1460 + dayOfCycle / 36524 - dayOfCycle / 146096) / 365
  let dayOfYear := dayOfCycle - daysBeforeYear yearOfCycle
  let monthFromMarch := (5 * dayOfYear + 2) / 153
  let day := dayOfYear - daysBeforeMonth monthFromMarch + 1
  let month := (monthFromMarch + 2) % 12 + 1
  let year := cycle * 400 + yearOfCycle
  (if month ≤ 2 then year + 1 else year, month, day)

def isLeapYear (year : Int) : Bool :=
  year % 4 = 0 && (year % 100 ≠ 0 || year % 400 = 0)

def daysInMonth (year month : Int) : Int :=
  if month = 2 then if isLeapYear year then 29 else 28
  else if month = 4 ∨ month = 6 ∨ month = 9 ∨ month = 11 then 30
  else 31

/-- The first and the last year that a date may have. -/
def firstYear : Int := -262143

def lastYear : Int := 262142

/-- The date of a year, month and day, if there is such a day in the calendar's range. -/
def ofCivil? (year month day : Int) : Option Date :=
  if firstYear ≤ year ∧ year ≤ lastYear ∧ 1 ≤ month ∧ month ≤ 12 ∧ 1 ≤ day
      ∧ day ≤ daysInMonth year month then
    some (ofCivil year month day)
  else none

end Date

end Backtest
