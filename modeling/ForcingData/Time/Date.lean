/-! # Dates

The proleptic Gregorian calendar, with a year 0. `Date.days` numbers the days, the first day of the
year 0 being day 0; `pred` and `succ` are the days before and after. -/

namespace ForcingData

structure Date where
  year : Int
  /-- From 1 to 12. -/
  month : Nat
  /-- From 1. -/
  day : Nat
deriving DecidableEq, Repr, Inhabited

namespace Date

def isLeap (year : Int) : Bool := year % 4 = 0 && (year % 100 ≠ 0 || year % 400 = 0)

def daysInMonth (year : Int) (month : Nat) : Nat :=
  if month = 2 then (if isLeap year then 29 else 28)
  else if month = 4 || month = 6 || month = 9 || month = 11 then 30
  else 31

/-- Is there such a day? -/
def isValid (d : Date) : Bool :=
  1 ≤ d.month && d.month ≤ 12 && 1 ≤ d.day && d.day ≤ daysInMonth d.year d.month

/-- The first and the last year that times are kept for. -/
def minYear : Int := -262143
def maxYear : Int := 262142

def inRange (d : Date) : Bool := minYear ≤ d.year && d.year ≤ maxYear

/-- The days before the first of January of a year. -/
def daysBeforeYear (year : Int) : Int :=
  year * 365 + (year - 1) / 4 - (year - 1) / 100 + (year - 1) / 400 + 1

/-- The days of the months before the given one. -/
def daysBeforeMonth (year : Int) (month : Nat) : Nat :=
  (List.range (month - 1)).foldl (fun n m => n + daysInMonth year (m + 1)) 0

def days (d : Date) : Int :=
  daysBeforeYear d.year + daysBeforeMonth d.year d.month + ((d.day : Int) - 1)

def pred (d : Date) : Date :=
  if 1 < d.day then { d with day := d.day - 1 }
  else if 1 < d.month then ⟨d.year, d.month - 1, daysInMonth d.year (d.month - 1)⟩
  else ⟨d.year - 1, 12, 31⟩

def succ (d : Date) : Date :=
  if d.day < daysInMonth d.year d.month then { d with day := d.day + 1 }
  else if d.month < 12 then ⟨d.year, d.month + 1, 1⟩
  else ⟨d.year + 1, 1, 1⟩

/-- The months since the beginning of the year 0. -/
def monthIndex (d : Date) : Int := d.year * 12 + ((d.month : Int) - 1)

end Date
end ForcingData
