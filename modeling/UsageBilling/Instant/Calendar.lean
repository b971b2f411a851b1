/-!
Contract: the proleptic Gregorian calendar, counted in days from 1 January 1970.

Owns:
- the day number of a civil date, and the civil date of a day number;
- which civil dates exist;
- the first and last day that instants may fall on.

Does not own: the time of day.
-/

namespace UsageBilling.Calendar

/-- A civil date. Year 0 is the year before year 1. -/
structure Date where
  year : Int
  month : Nat
  day : Nat
deriving DecidableEq, Repr

def isLeapYear (year : Int) : Bool :=
  year % 4 == 0 && (year % 100 != 0 || year % 400 == 0)

def daysInMonth (year : Int) (month : Nat) : Nat :=
  if month == 2 then (if isLeapYear year then 29 else 28)
  else if month == 4 || month == 6 || month == 9 || month == 11 then 30
  else 31

/-- Whether the calendar has the date. -/
def Date.exists (date : Date) : Bool :=
  1 ≤ date.month && date.month ≤ 12 && 1 ≤ date.day &&
    date.day ≤ daysInMonth date.year date.month

/-- The number of days from 1 March of year 0 to 1 January 1970. -/
def epochOffset : Int := 719468

def cycleDays : Int := 146097

/-- The day number of a date. Years are taken to begin in March, so that the
leap day comes last. -/
def dayNumber (date : Date) : Int :=
  let year := if date.month ≤ 2 then date.year - 1 else date.year
  let yearOfCycle := year % 400
  let monthFromMarch : Int := (date.month + 9) % 12
  let dayOfYear := (153 * monthFromMarch + 2) / 5 + date.day - 1
  let dayOfCycle := yearOfCycle * 365 + yearOfCycle / 4 - yearOfCycle / 100 + dayOfYear
  year / 400 * cycleDays + dayOfCycle - epochOffset

def dateOf (number : Int) : Date :=
  let shifted := number + epochOffset
  let dayOfCycle := shifted % cycleDays
  let yearOfCycle :=
    (dayOfCycle - dayOfCycle / 1460 + dayOfCycle / 36524 - dayOfCycle / 146096) / 365
  let dayOfYear := dayOfCycle - (365 * yearOfCycle + yearOfCycle / 4 - yearOfCycle / 100)
  let monthFromMarch := (5 * dayOfYear + 2) / 153
  let day := dayOfYear - (153 * monthFromMarch + 2) / 5 + 1
  let month := if monthFromMarch < 10 then monthFromMarch + 3 else monthFromMarch - 9
  let year := shifted / cycleDays * 400 + yearOfCycle
  ⟨if month ≤ 2 then year + 1 else year, month.toNat, day.toNat⟩

/-- The first day of the timeline: 1 January of year -262143. -/
def firstDay : Int := dayNumber ⟨-262143, 1, 1⟩

/-- The last day of the timeline: 31 December of year 262142. -/
def lastDay : Int := dayNumber ⟨262142, 12, 31⟩

end UsageBilling.Calendar
