/-!
# Decimal numerals

The parts of a written number and the double that it denotes. The digits are
gathered in a 64-bit significand; once it is full, a further digit before the
point only raises the exponent and one behind the point is dropped. The
significand is then multiplied or divided by a power of ten, which rounds once
more, so the result need not be the double nearest to the numeral.
-/

namespace SalientGraph
namespace Decimal

/-- A written number. Its digits are given from the left; `fraction` is empty when there is no
point, and `exponent` is absent when none is written. -/
structure Numeral where
  negative : Bool
  whole : List Nat
  fraction : List Nat
  exponent : Option Int

/-- Appends digits to `n` as long as the result fits 64 bits. Gives the number reached and how
many digits it took. -/
def absorb (n : Nat) : List Nat → Nat × Nat
  | [] => (n, 0)
  | d :: ds =>
    if n * 10 + d < 0x10000000000000000 then
      let (value, used) := absorb (n * 10 + d) ds
      (value, used + 1)
    else (n, 0)

/-- The double nearest to `10 ^ n`. -/
def powerOfTen (n : Nat) : Float :=
  Float.ofScientific 1 false n

/-- `x / 10 ^ n`, divided by at most `10 ^ 308` at a time. -/
def scaleDown (x : Float) (n : Nat) : Float :=
  if n ≤ 308 then x / powerOfTen n
  else if x == 0.0 then x
  else scaleDown (x / powerOfTen 308) (n - 308)
termination_by n

/-- `x · 10 ^ n`, if that is finite. -/
def scaleUp? (x : Float) (n : Nat) : Option Float :=
  if n ≤ 308 then
    let y := x * powerOfTen n
    if y.isInf then none else some y
  else if x == 0.0 then some x
  else none

/-- `x · 10 ^ e`, if that is finite. -/
def scale? (x : Float) : Int → Option Float
  | .ofNat n => scaleUp? x n
  | .negSucc n => some (scaleDown x (n + 1))

namespace Numeral

/-- Neither a point nor an exponent is written. -/
def isWhole (n : Numeral) : Bool :=
  n.fraction.isEmpty && n.exponent.isNone

/-- The number that the digits before the point denote, if it fits 64 bits. -/
def whole64? (n : Numeral) : Option Nat :=
  let (value, used) := absorb 0 n.whole
  if used = n.whole.length then some value else none

/-- The double that the numeral denotes, if it is finite. -/
def toFloat? (n : Numeral) : Option Float :=
  let (leading, usedWhole) := absorb 0 n.whole
  let (significand, usedFraction) := absorb leading n.fraction
  -- digits before the point that were not taken count as zeros
  let exponent : Int :=
    ((n.whole.length - usedWhole : Nat) : Int) - (usedFraction : Int) + n.exponent.getD 0
  (scale? (UInt64.ofNat significand).toFloat exponent).map fun x => if n.negative then -x else x

end Numeral

end Decimal
end SalientGraph
