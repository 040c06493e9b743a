/-!
# Points in time

A point of the wall clock with nanosecond resolution, counted from the start of
1970 in universal time.
-/

namespace SalientGraph

/-- Whole seconds since the start of 1970, rounded down, and the nanoseconds on top of them. Only
within a leap second are there more than `10 ^ 9` of these. -/
structure Timestamp where
  seconds : Int
  nanos : Nat
deriving DecidableEq, Inhabited

namespace Timestamp

/-- The point `ms` milliseconds after the start of 1970. -/
def ofMillis (ms : Int) : Timestamp :=
  ⟨ms / 1000, (ms % 1000).toNat * 1000000⟩

/-- All of the time since the start of 1970 in nanoseconds. -/
def totalNanos (t : Timestamp) : Int :=
  t.seconds * 1000000000 + t.nanos

/-- The second of the day. -/
def secondOfDay (t : Timestamp) : Int :=
  t.seconds % 86400

/-- Whether the point lies within a leap second. -/
def isLeap (t : Timestamp) : Bool :=
  1000000000 ≤ t.nanos

/-- The leap second that has passed in full on the way from `earlier` to `t`, or back: the one
that the point earlier in the day lies in. -/
def leapSince (t earlier : Timestamp) : Int :=
  if earlier.secondOfDay < t.secondOfDay && earlier.isLeap then 1
  else if t.secondOfDay < earlier.secondOfDay && t.isLeap then -1
  else 0

/-- The time from `earlier` to `t` in whole milliseconds, cut off towards zero. -/
def millisSince (t earlier : Timestamp) : Int :=
  (t.totalNanos - earlier.totalNanos + leapSince t earlier * 1000000000).tdiv 1000000

/-- The number of whole milliseconds since the start of 1970, if the time is one. -/
def millis? (t : Timestamp) : Option Int :=
  if t.nanos % 1000000 = 0 then some (t.seconds * 1000 + t.nanos / 1000000) else none

end Timestamp
end SalientGraph
