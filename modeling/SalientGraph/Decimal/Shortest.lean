/-!
# Shortest decimal digits

The fewest decimal digits that denote a given double among all doubles, and of
those the ones nearest to it. A double is `m · 2 ^ q`; the reals that round to it
form an interval around it, whose ends belong to it exactly when `m` is even. For
one digit, two, and so on, the two neighbours of the value on the grid of decimals
with that many digits are tested in exact arithmetic, and the first grid with a
neighbour inside the interval wins.
-/

namespace SalientGraph
namespace Decimal

/-- The magnitude `m · 2 ^ q` of a finite double. `narrow` says that the gap to the next smaller
double is half of the gap to the next larger one. -/
structure Magnitude where
  m : Nat
  q : Int
  narrow : Bool

/-- The bit of a mantissa that goes without saying. -/
def impliedBit : Nat := 0x10000000000000

/-- The magnitude that the bits of a finite double stand for. -/
def Magnitude.ofBits (bits : UInt64) : Magnitude :=
  let n := bits.toNat
  let mantissa : Nat := n % impliedBit
  let field : Nat := n / impliedBit % 0x800
  if field = 0 then ⟨mantissa, -1074, false⟩
  else ⟨impliedBit + mantissa, (field : Int) - 1075, mantissa = 0 && field > 1⟩

/-- A decimal `digits · 10 ^ exponent`. -/
structure Scaled where
  digits : Nat
  exponent : Int

/-- Factors `(a, b)` with `x · 2 ^ (q - 2) / 10 ^ e = x · a / b`. -/
def ratio (q e : Int) : Nat × Nat :=
  (Nat.pow 2 (q - 2).toNat * Nat.pow 10 (-e).toNat, Nat.pow 2 (2 - q).toNat * Nat.pow 10 e.toNat)

/-- The greatest `p` with `10 ^ p` at most the value, found next to an estimate from the binary
exponent. -/
def leadingExponent (x : Magnitude) : Int :=
  let estimate := ((Nat.log2 x.m : Int) + x.q) * 30103 / 100000
  let reaches (p : Int) : Bool :=
    let (a, b) := ratio x.q p
    b ≤ 4 * x.m * a
  if reaches (estimate + 1) then estimate + 1
  else if reaches estimate then estimate
  else estimate - 1

/-- The neighbour of the value with `count` digits that rounds to it, if there is one: the nearer
of two, and the even one of two equally near. -/
def Magnitude.withDigits? (x : Magnitude) (count : Nat) : Option Scaled :=
  let e := leadingExponent x - count + 1
  let (a, b) := ratio x.q e
  -- the value and the ends of its interval in quarters of `2 ^ q`, times `a`
  let value := 4 * x.m * a
  let low := (4 * x.m - if x.narrow then 1 else 2) * a
  let high := (4 * x.m + 2) * a
  let within (d : Nat) : Bool :=
    if x.m % 2 = 0 then low ≤ d * b && d * b ≤ high else low < d * b && d * b < high
  -- the neighbours on the grid, as multiples of `b`
  let below := value / b
  let above := below + 1
  match within below, within above with
  | false, false => none
  | true, false => some ⟨below, e⟩
  | false, true => some ⟨above, e⟩
  | true, true =>
    let down := value - below * b
    let up := above * b - value
    if down < up || (down = up && below % 2 = 0) then some ⟨below, e⟩ else some ⟨above, e⟩

/-- Moves trailing zeros of the digits into the exponent. -/
def Scaled.trim (s : Scaled) : Scaled :=
  if h : s.digits ≠ 0 ∧ s.digits % 10 = 0 then
    Scaled.trim ⟨s.digits / 10, s.exponent + 1⟩
  else s
termination_by s.digits
decreasing_by exact Nat.div_lt_self (Nat.pos_of_ne_zero h.1) (by decide)

/-- The shortest decimal of a magnitude; seventeen digits always suffice. -/
def Magnitude.shortest (x : Magnitude) : Scaled :=
  if x.m = 0 then ⟨0, 0⟩
  else
    match (List.range 17).findSome? fun k => x.withDigits? (k + 1) with
    | some s => s.trim
    | none => ⟨x.m, x.q⟩

end Decimal
end SalientGraph
