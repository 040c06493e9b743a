import Std.Data.ExtTreeMap

/-!
# JSON values

The values that a property of a node or an edge may take, and the property map
itself. Members are kept in key order, so a map has one written form.
-/

namespace SalientGraph

/-- A number is whole as long as it fits 64 bits, with or without a sign, and a double beyond
that or when it is written with a point or an exponent. -/
inductive JsonNumber where
  | whole (n : Int)
  | double (x : Float)

/-- A JSON value. The members of an object stand in increasing order of their keys. -/
inductive Json where
  | null
  | bool (b : Bool)
  | number (n : JsonNumber)
  | text (s : String)
  | array (items : List Json)
  | object (members : List (String × Json))

/-- The payload of a node or an edge: a value for each property name. -/
abbrev Properties := Std.ExtTreeMap String Json compare

namespace Json

/-- The number `n`. -/
def nat (n : Nat) : Json :=
  .number (.whole n)

/-- A double as a number; what is not finite has no number and becomes `null`. -/
def ofFloat (x : Float) : Json :=
  if x.isFinite then .number (.double x) else .null

/-- An optional value; its absence is `null`. -/
def ofOption {α : Type} (encode : α → Json) : Option α → Json
  | none => .null
  | some a => encode a

/-- The property map with the given members, of which the last of one name counts. -/
def properties (members : List (String × Json)) : Properties :=
  Std.ExtTreeMap.ofList members compare

/-- The object with the given members, of which the last of one name counts. -/
def ofMembers (members : List (String × Json)) : Json :=
  .object (properties members).toList

/-- A property map as an object. -/
def ofProperties (p : Properties) : Json :=
  .object p.toList

/-- The member of an object with the given key. -/
def get? (key : String) : Json → Option Json
  | .object members => (members.find? fun member => member.1 == key).map (·.2)
  | _ => none

end Json

end SalientGraph
