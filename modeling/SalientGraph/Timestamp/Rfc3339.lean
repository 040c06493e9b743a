import SalientGraph.Text.Blank
import SalientGraph.Timestamp.Calendar

/-!
# Written points in time

The date and time format of RFC 3339. Writing gives universal time with a `Z` and
the fewest of 0, 3, 6 or 9 fraction digits. Reading is lenient about blanks, about
the letter between date and time and about the number of digits in a field; it needs
an offset.
-/

namespace SalientGraph
namespace Timestamp

/-! ## Writing -/

/-- The digits of `n`, filled up with zeros to at least `width`. -/
def padded (width n : Nat) : List Char :=
  let digits := Nat.toDigits 10 n
  List.replicate (width - digits.length) '0' ++ digits

/-- A year; one outside of four digits has a sign. -/
def writeYear (year : Int) : List Char :=
  if 0 ≤ year ∧ year ≤ 9999 then padded 4 year.toNat
  else (if year < 0 then '-' else '+') :: padded 4 year.natAbs

/-- The fraction of a second, with its point. -/
def writeFraction (nanos : Nat) : List Char :=
  if nanos = 0 then []
  else if nanos % 1000000 = 0 then '.' :: padded 3 (nanos / 1000000)
  else if nanos % 1000 = 0 then '.' :: padded 6 (nanos / 1000)
  else '.' :: padded 9 nanos

/-- A point in time as text. -/
def write (t : Timestamp) : List Char :=
  let date := CalendarDate.ofDays (t.seconds / 86400)
  let secondOfDay := t.secondOfDay.toNat
  let second := if t.isLeap then secondOfDay % 60 + 1 else secondOfDay % 60
  let nanos := if t.isLeap then t.nanos - 1000000000 else t.nanos
  writeYear date.year ++ '-' :: padded 2 date.month ++ '-' :: padded 2 date.day ++
    'T' :: padded 2 (secondOfDay / 3600) ++ ':' :: padded 2 (secondOfDay / 60 % 60) ++
    ':' :: padded 2 second ++ writeFraction nanos ++ ['Z']

/-! ## Reading -/

/-- Drops blanks from the front. -/
def skipBlanks (cs : List Char) : List Char :=
  cs.dropWhile Text.isWhiteSpace

/-- The number that some digits spell. -/
def digitsValue (ds : List Char) : Nat :=
  ds.foldl (fun n d => n * 10 + (d.toNat - 48)) 0

/-- Cuts at least one and at most `most` digits off the front. -/
def readDigits (most : Nat) (cs : List Char) : Option (List Char × List Char) :=
  let digits := (cs.take most).takeWhile Char.isDigit
  if digits.isEmpty then none else some (digits, cs.drop digits.length)

/-- Cuts a number of one or two digits off the front, behind any blanks. -/
def readField (cs : List Char) : Option (Nat × List Char) :=
  (readDigits 2 (skipBlanks cs)).map fun cut => (digitsValue cut.1, cut.2)

/-- Cuts a year off the front, behind any blanks: up to four digits, or any number of them behind
a sign. -/
def readYear (cs : List Char) : Option (Int × List Char) :=
  match skipBlanks cs with
  | '-' :: rest => (readDigits rest.length rest).map fun cut => (-(digitsValue cut.1 : Int), cut.2)
  | '+' :: rest => (readDigits rest.length rest).map fun cut => ((digitsValue cut.1 : Int), cut.2)
  | cs => (readDigits 4 cs).map fun cut => ((digitsValue cut.1 : Int), cut.2)

/-- Cuts a given character off the front, behind any blanks. -/
def readMark (mark : Char) (cs : List Char) : Option (List Char) :=
  match skipBlanks cs with
  | c :: rest => if c = mark then some rest else none
  | [] => none

/-- Cuts the fraction of a second off the front, if there is one, as nanoseconds. Digits beyond
the ninth are dropped. -/
def readFraction (cs : List Char) : Option (Nat × List Char) :=
  match cs with
  | '.' :: rest =>
    (readDigits 9 rest).map fun cut =>
      (digitsValue cut.1 * Nat.pow 10 (9 - cut.1.length), cut.2.dropWhile Char.isDigit)
  | _ => some (0, cs)

/-- Exactly two digits at the front. -/
def readPair (cs : List Char) : Option (Nat × List Char) :=
  match cs with
  | a :: b :: rest => if a.isDigit && b.isDigit then some (digitsValue [a, b], rest) else none
  | _ => none

/-- Cuts an offset from universal time off the front, in seconds: `Z`, `UTC`, or a sign, hours and
minutes with colons or blanks between them. -/
def readOffset (cs : List Char) : Option (Int × List Char) :=
  match cs with
  | 'Z' :: rest => some (0, rest)
  | 'z' :: rest => some (0, rest)
  | sign :: rest =>
    -- the name may be in capital or small letters
    if (cs.take 3).map Char.toUpper = ['U', 'T', 'C'] then some (0, cs.drop 3)
    else do
      let negative ←
        if sign = '+' then some false
        else if sign = '-' ∨ sign = '−' then some true
        else none
      let (hours, rest) ← readPair rest
      let (minutes, rest) ← readPair (rest.dropWhile fun c => c = ':' || Text.isWhiteSpace c)
      if 60 ≤ minutes then none
      else
        let seconds : Int := hours * 3600 + minutes * 60
        some (if negative then -seconds else seconds, rest)
  | [] => none

/-- The first year that can be read, in the text's own time and in universal time. -/
def firstYear : Int := -262143

/-- The last year that can be read. -/
def lastYear : Int := 262142

/-- The point in time that a text spells out. A sixtieth second is a leap second. -/
def parse? (s : String) : Option Timestamp := do
  let (year, cs) ← readYear s.toList
  let (month, cs) ← readField (← readMark '-' cs)
  let (day, cs) ← readField (← readMark '-' cs)
  let cs ←
    match cs with
    | c :: rest => if c = 'T' ∨ c = 't' ∨ c = ' ' then some rest else none
    | [] => none
  let (hour, cs) ← readField cs
  let (minute, cs) ← readField (← readMark ':' cs)
  let (second, cs) ← readField (← readMark ':' cs)
  let (nanos, cs) ← readFraction cs
  let (offset, cs) ← readOffset (skipBlanks cs)
  let date : CalendarDate := ⟨year, month, day⟩
  if (skipBlanks cs).isEmpty ∧ date.isValid ∧ hour ≤ 23 ∧ minute ≤ 59 ∧ second ≤ 60 ∧
      offset.natAbs < 86400 ∧ firstYear ≤ year ∧ year ≤ lastYear then
    -- a leap second is the 59th with another second in its nanoseconds
    let leap := second = 60
    let shown := date.toDays * 86400 + (hour * 3600 + minute * 60 + (if leap then 59 else second) : Nat)
    let seconds := shown - offset
    let universal := CalendarDate.ofDays (seconds / 86400)
    if firstYear ≤ universal.year ∧ universal.year ≤ lastYear then
      some ⟨seconds, if leap then nanos + 1000000000 else nanos⟩
    else none
  else none

end Timestamp
end SalientGraph
