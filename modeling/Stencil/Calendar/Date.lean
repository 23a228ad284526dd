/-!
# Dates

Days counted from the start of 1970 as dates of the Gregorian calendar, which is taken to hold for
all years.  A year is counted from March, so that the leap day is its last.
-/

namespace Stencil.Calendar

/-- A date. -/
structure Date where
  /-- The year. -/
  year : Int
  /-- The month, from one. -/
  month : Nat
  /-- The day of the month, from one. -/
  day : Nat
  deriving DecidableEq, Repr, Inhabited

/-- Whether a year has a leap day. -/
def isLeapYear (year : Int) : Bool := year % 4 == 0 && (year % 100 != 0 || year % 400 == 0)

/-- Days from the first of March of year zero to the start of 1970. -/
def daysToEpoch : Int := 719468

/-- Days in four hundred years. -/
def daysPerEra : Int := 146097

/-- The date of a day counted from the start of 1970. -/
def Date.ofDays (days : Int) : Date :=
  let shifted := days + daysToEpoch
  let era := shifted / daysPerEra
  let dayOfEra := shifted % daysPerEra
  let yearOfEra := (dayOfEra - dayOfEra / 1460 + dayOfEra / 36524 - dayOfEra / 146096) / 365
  let dayOfYear := (dayOfEra - (365 * yearOfEra + yearOfEra / 4 - yearOfEra / 100)).toNat
  let shiftedMonth := (5 * dayOfYear + 2) / 153
  let month := if shiftedMonth < 10 then shiftedMonth + 3 else shiftedMonth - 9
  { year := era * 400 + yearOfEra + (if month ≤ 2 then 1 else 0)
    month := month
    day := dayOfYear - (153 * shiftedMonth + 2) / 5 + 1 }

/-- The days of a year before each month, without a leap day. -/
def daysBeforeMonth : List Nat := [0, 31, 59, 90, 120, 151, 181, 212, 243, 273, 304, 334]

/-- The day of the year, from one. -/
def Date.dayOfYear (d : Date) : Nat :=
  daysBeforeMonth.getD (d.month - 1) 0 + d.day + (if isLeapYear d.year && 2 < d.month then 1 else 0)

/-- The quarter of the year, from one. -/
def Date.quarter (d : Date) : Nat := (d.month - 1) / 3 + 1

/-- The weekday of a day counted from the start of 1970, from zero for Sunday. -/
def weekdayOfDays (days : Int) : Nat := ((days + 4) % 7).toNat

/-! ## Times -/

/-- A date with the time of day. -/
structure Time where
  /-- The date. -/
  date : Date
  /-- The weekday, from zero for Sunday. -/
  weekday : Nat
  /-- The hour. -/
  hour : Nat
  /-- The minute. -/
  minute : Nat
  /-- The second. -/
  second : Nat
  /-- The nanoseconds of the second. -/
  nanosecond : Nat
  /-- Seconds from the start of 1970. -/
  timestamp : Int
  deriving DecidableEq, Repr, Inhabited

/-- The time in UTC that is so many seconds and nanoseconds after the start of 1970. -/
def Time.ofSeconds (seconds : Int) (nanosecond : Nat) : Time :=
  let days := seconds / 86400
  let second := (seconds % 86400).toNat
  { date := Date.ofDays days
    weekday := weekdayOfDays days
    hour := second / 3600
    minute := second / 60 % 60
    second := second % 60
    nanosecond := nanosecond
    timestamp := seconds }

namespace Time

/-- The weekday, from one for Monday to seven. -/
def weekdayFromMonday (t : Time) : Nat := if t.weekday = 0 then 7 else t.weekday

/-- The hour on a clock of twelve hours. -/
def hour12 (t : Time) : Nat := if t.hour % 12 = 0 then 12 else t.hour % 12

/-- The week of the year, where weeks start on Sunday and the days before the first one are in week
zero. -/
def weekFromSunday (t : Time) : Nat := (t.date.dayOfYear + 6 - t.weekday) / 7

/-- The same for weeks that start on Monday. -/
def weekFromMonday (t : Time) : Nat := (t.date.dayOfYear + 6 - (t.weekdayFromMonday - 1)) / 7

/-- Whether a year has a 53rd week, when it starts on a weekday counted from Monday as one: it
starts on a Thursday, or on a Wednesday and is a leap year. -/
def isLongYear (year : Int) (firstWeekday : Nat) : Bool :=
  firstWeekday == 4 || (firstWeekday == 3 && isLeapYear year)

/-- The year and week in which weeks start on Monday and belong to the year of their Thursday. -/
def isoWeek (t : Time) : Int × Nat :=
  let year := t.date.year
  -- the weekday of the first of January, from one for Monday
  let first := (t.weekdayFromMonday + 371 - t.date.dayOfYear) % 7 + 1
  let week := (t.date.dayOfYear + 10 - t.weekdayFromMonday) / 7
  if week = 0 then
    let before := (first + (if isLeapYear (year - 1) then 5 else 6) - 1) % 7 + 1
    (year - 1, if isLongYear (year - 1) before then 53 else 52)
  else if week = 53 && !isLongYear year first then (year + 1, 1)
  else (year, week)

end Time

end Stencil.Calendar
