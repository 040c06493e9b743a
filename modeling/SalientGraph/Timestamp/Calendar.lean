import SalientGraph.Timestamp.Basic

/-!
# Calendar days

Dates of the Gregorian calendar, carried on in both directions, as counts of days
since the start of 1970. Years are counted from March, so that the leap day comes
last, in eras of 400 years.
-/

namespace SalientGraph

/-- A date; the year 0 precedes the year 1. -/
structure CalendarDate where
  year : Int
  month : Nat
  day : Nat
deriving DecidableEq

namespace CalendarDate

def isLeapYear (year : Int) : Bool :=
  year % 4 = 0 && (year % 100 ≠ 0 || year % 400 = 0)

def daysInMonth (year : Int) (month : Nat) : Nat :=
  if month = 2 then (if isLeapYear year then 29 else 28)
  else if month ∈ [4, 6, 9, 11] then 30
  else 31

/-- The month exists and has such a day. -/
def isValid (d : CalendarDate) : Bool :=
  1 ≤ d.month && d.month ≤ 12 && 1 ≤ d.day && d.day ≤ daysInMonth d.year d.month

/-- Days from the start of 1970 to the date. -/
def toDays (d : CalendarDate) : Int :=
  let y := if d.month ≤ 2 then d.year - 1 else d.year
  let era := y / 400
  let yearOfEra := y - era * 400
  let monthFromMarch : Int := ((d.month + 9) % 12 : Nat)
  -- from March on, any five months in a row have 153 days
  let dayOfYear := (153 * monthFromMarch + 2) / 5 + d.day - 1
  let dayOfEra := yearOfEra * 365 + yearOfEra / 4 - yearOfEra / 100 + dayOfYear
  era * 146097 + dayOfEra - 719468

/-- The date a number of days after the start of 1970. -/
def ofDays (days : Int) : CalendarDate :=
  let z := days + 719468
  let era := z / 146097
  let dayOfEra := z - era * 146097
  -- without its leap days the era has years of 365 days
  let yearOfEra := (dayOfEra - dayOfEra / 1460 + dayOfEra / 36524 - dayOfEra / 146096) / 365
  let dayOfYear := dayOfEra - (365 * yearOfEra + yearOfEra / 4 - yearOfEra / 100)
  let monthFromMarch := (5 * dayOfYear + 2) / 153
  let day := dayOfYear - (153 * monthFromMarch + 2) / 5 + 1
  let month := if monthFromMarch < 10 then monthFromMarch + 3 else monthFromMarch - 9
  let year := yearOfEra + era * 400
  ⟨if month ≤ 2 then year + 1 else year, month.toNat, day.toNat⟩

end CalendarDate
end SalientGraph
