namespace DataFlash.Calendar

structure Date where
  year : Int
  month : Nat
  day : Nat
  deriving DecidableEq, Repr

def isLeap (year : Int) : Bool :=
  year % 4 == 0 && (year % 100 != 0 || year % 400 == 0)

/-- The days from the start of year 0 to the start of a year: 365 for each year, one more for
each leap year between. -/
def daysBefore (year : Int) : Int :=
  365 * year + (year + 3) / 4 - (year + 99) / 100 + (year + 399) / 400

/-- The year that a day counted from the start of year 0 falls in. The quotient by the mean year
is off by one at most. -/
def yearOf (day : Int) : Int :=
  let guess := day * 400 / 146097
  if day < daysBefore guess then guess - 1
  else if day < daysBefore (guess + 1) then guess
  else guess + 1

def monthLengths (leap : Bool) : List Nat :=
  [31, if leap then 29 else 28, 31, 30, 31, 30, 31, 31, 30, 31, 30, 31]

/-- The month and the day of the month for a day of the year counted from 0, when the months
counted so far are over. -/
def monthDay : List Nat → Nat → Nat → Nat × Nat
  | [], month, day => (month, day + 1)
  | length :: rest, month, day =>
    if day < length then (month, day + 1) else monthDay rest (month + 1) (day - length)

def epoch : Int := 719528

/-- The date of a day counted from 1970-01-01. -/
def date (day : Int) : Date :=
  let day := day + epoch
  let year := yearOf day
  let (month, dayOfMonth) := monthDay (monthLengths (isLeap year)) 1 (day - daysBefore year).toNat
  { year, month, day := dayOfMonth }

end DataFlash.Calendar
