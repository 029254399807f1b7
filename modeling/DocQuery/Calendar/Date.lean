/-!
# Calendar dates

A date of the proleptic Gregorian calendar, with years below and above the four-digit ones. The
validity of the day is part of the type.
-/

set_option autoImplicit false

namespace DocQuery

namespace Calendar

/-- Years with a 29th of February. -/
def isLeapYear (year : Int) : Bool :=
  year % 4 == 0 && (year % 100 != 0 || year % 400 == 0)

/-- The number of days of a month. -/
def daysInMonth (year : Int) (month : Nat) : Nat :=
  if month = 2 then (if isLeapYear year then 29 else 28)
  else if month = 4 ∨ month = 6 ∨ month = 9 ∨ month = 11 then 30
  else 31

/-- The years that dates reach. -/
def firstYear : Int := -262143

/-- The last of the years that dates reach. -/
def lastYear : Int := 262142

/-- The three numbers are a date. -/
def IsDate (year : Int) (month day : Nat) : Prop :=
  firstYear ≤ year ∧ year ≤ lastYear ∧ 1 ≤ month ∧ month ≤ 12 ∧
    1 ≤ day ∧ day ≤ daysInMonth year month

instance (year : Int) (month day : Nat) : Decidable (IsDate year month day) := by
  unfold IsDate
  infer_instance

end Calendar

open Calendar

/-- A calendar date. -/
structure Date where
  year : Int
  /-- The month, from 1. -/
  month : Nat
  /-- The day of the month, from 1. -/
  day : Nat
  /-- The month has that day. -/
  isDate : IsDate year month day
  deriving DecidableEq

namespace Date

/-- The date of a year, month and day, if there is one. -/
def ofCivil? (year : Int) (month day : Nat) : Option Date :=
  if h : IsDate year month day then some ⟨year, month, day, h⟩ else none

/-- The first of two dates is the earlier one. -/
def Before (a b : Date) : Prop :=
  a.year < b.year ∨ a.year = b.year ∧ (a.month < b.month ∨ a.month = b.month ∧ a.day < b.day)

instance (a b : Date) : Decidable (Before a b) := by
  unfold Before
  infer_instance

/-- The day after a date; the last date has none. -/
def next? (d : Date) : Option Date :=
  if d.day < daysInMonth d.year d.month then ofCivil? d.year d.month (d.day + 1)
  else if d.month < 12 then ofCivil? d.year (d.month + 1) 1
  else ofCivil? (d.year + 1) 1 1

/-- The day before a date; the first date has none. -/
def previous? (d : Date) : Option Date :=
  if 1 < d.day then ofCivil? d.year d.month (d.day - 1)
  else if 1 < d.month then ofCivil? d.year (d.month - 1) (daysInMonth d.year (d.month - 1))
  else ofCivil? (d.year - 1) 12 31

end Date

end DocQuery
