import SalientGraph.Bytes
import SalientGraph.Decimal.Shortest
import SalientGraph.Json.Value

/-!
# Written JSON

The compact text of a value: no blanks, members in order, characters beyond the
basic ones as they are. A double is written with the fewest digits that read back,
positionally below `10 ^ 16` and with a signed exponent beyond that.
-/

namespace SalientGraph
namespace Json

/-- One character inside a quoted text. -/
def escape (c : Char) : List Char :=
  match c with
  | '"' => ['\\', '"']
  | '\\' => ['\\', '\\']
  | '\n' => ['\\', 'n']
  | '\r' => ['\\', 'r']
  | '\t' => ['\\', 't']
  | _ =>
    if c.toNat = 8 then ['\\', 'b']
    else if c.toNat = 12 then ['\\', 'f']
    else if c.toNat < 32 then
      ['\\', 'u', '0', '0', Bytes.hexDigit (c.toNat / 16), Bytes.hexDigit (c.toNat % 16)]
    else [c]

/-- A quoted text. -/
def writeText (s : String) : List Char :=
  '"' :: s.toList.flatMap escape ++ ['"']

/-- The digits of a whole number. -/
def writeInt (n : Int) : List Char :=
  if n < 0 then '-' :: Nat.toDigits 10 n.natAbs else Nat.toDigits 10 n.natAbs

/-- An exponent, which has its sign also when it is positive. -/
def writeExponent (n : Int) : List Char :=
  if n < 0 then writeInt n else '+' :: writeInt n

/-- A shortest decimal as text. A value below `10 ^ 16` and not below `10 ^ -5` is written
positionally, always with a digit on both sides of the point; any other has its point behind the
first digit and an exponent. -/
def writeScaled (s : Decimal.Scaled) : List Char :=
  let digits := Nat.toDigits 10 s.digits
  let point := (digits.length : Int) + s.exponent
  if 0 ≤ s.exponent ∧ point ≤ 16 then
    digits ++ List.replicate s.exponent.toNat '0' ++ ['.', '0']
  else if 0 < point ∧ point ≤ 16 then
    digits.take point.toNat ++ '.' :: digits.drop point.toNat
  else if -5 < point ∧ point ≤ 0 then
    '0' :: '.' :: List.replicate (-point).toNat '0' ++ digits
  else
    let mantissa :=
      match digits with
      | [] => []
      | [d] => [d]
      | d :: ds => d :: '.' :: ds
    mantissa ++ 'e' :: writeExponent (point - 1)

/-- A double as text; what is not finite is written as `null`. -/
def writeFloat (x : Float) : List Char :=
  if !x.isFinite then ['n', 'u', 'l', 'l']
  else
    let magnitude := Decimal.Magnitude.ofBits x.toBits
    let text := if magnitude.m = 0 then ['0', '.', '0'] else writeScaled magnitude.shortest
    if x.toBits >>> 63 = 0 then text else '-' :: text

def writeNumber : JsonNumber → List Char
  | .whole n => writeInt n
  | .double x => writeFloat x

mutual

/-- The compact text of a value. -/
def write : Json → List Char
  | .null => ['n', 'u', 'l', 'l']
  | .bool true => ['t', 'r', 'u', 'e']
  | .bool false => ['f', 'a', 'l', 's', 'e']
  | .number n => writeNumber n
  | .text s => writeText s
  | .array items => '[' :: writeItems items ++ [']']
  | .object members => '{' :: writeMembers members ++ ['}']

/-- The items of an array with commas between them. -/
def writeItems : List Json → List Char
  | [] => []
  | [v] => write v
  | v :: rest => write v ++ ',' :: writeItems rest

/-- The members of an object with commas between them. -/
def writeMembers : List (String × Json) → List Char
  | [] => []
  | [(k, v)] => writeText k ++ ':' :: write v
  | (k, v) :: rest => writeText k ++ ':' :: write v ++ ',' :: writeMembers rest

end

/-- The compact text of a value. -/
def render (v : Json) : String :=
  String.ofList v.write

end Json
end SalientGraph
