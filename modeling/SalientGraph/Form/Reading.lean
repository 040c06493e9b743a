import SalientGraph.Fault
import SalientGraph.Json.Reader
import SalientGraph.Node
import SalientGraph.Timestamp.Rfc3339

/-!
# Reading values from documents

Readers for scalars, lists and records. A record is an object or, equally, the array
of its fields in the order of their declaration. An object may hold members that
the record does not know, which are passed over unread, but none that it knows twice.
-/

namespace SalientGraph
namespace Form

open Json (Document)

/-- Reads a value from a document that may nest some number of levels deep. -/
abbrev Reading (α : Type) := Nat → Document → Option α

/-! ## Scalars -/

def text : Reading String
  | _, .text s => s
  | _, _ => none

def bool : Reading Bool
  | _, .bool b => some b
  | _, _ => none

/-- A whole number below `bound`. -/
def natBelow (bound : Nat) : Reading Nat
  | _, .number (some (.whole n)) => if 0 ≤ n ∧ n < bound then some n.toNat else none
  | _, _ => none

/-- A whole number of 64 bits. -/
def word : Reading Nat :=
  natBelow 0x10000000000000000

/-- Any number, as a double. -/
def float : Reading Float
  | _, .number (some (.whole n)) => some (Relevance.floatOfInt n)
  | _, .number (some (.double x)) => some x
  | _, _ => none

/-- A whole number as a single-precision number. -/
def float32OfInt (n : Int) : Float32 :=
  let magnitude := (UInt64.ofNat n.natAbs).toFloat32
  if n < 0 then -magnitude else magnitude

/-- Any number, as a single-precision one. -/
def single : Reading Single
  | _, .number (some (.whole n)) => some (.ofFloat32 (float32OfInt n))
  | _, .number (some (.double x)) => some (.ofFloat32 x.toFloat32)
  | _, _ => none

def timestamp : Reading Timestamp := fun levels d =>
  (text levels d).bind Timestamp.parse?

/-! ## Compound values -/

/-- A value or `null`. -/
def option {α : Type} (read : Reading α) : Reading (Option α)
  | _, .null => some none
  | levels, d => (read levels d).map some

def list {α : Type} (read : Reading α) : Reading (List α)
  | levels + 1, .array items => items.mapM (read levels)
  | _, _ => none

/-- A property map: an object with any values. -/
def properties : Reading Properties := fun levels d =>
  match levels, d with
  | inner + 1, .object members => (Document.memberValues? inner members).map Json.properties
  | _, _ => none

/-- A sealed payload: the array of its bytes. -/
def sealedBytes : Reading Sealed := fun levels d =>
  (list (natBelow 256) levels d).map fun bytes => ⟨bytes.map UInt8.ofNat⟩

/-! ## Records -/

/-- The fields of a record that are given, and the levels that each may nest. -/
structure Fields where
  levels : Nat
  given : List (String × Document)

/-- Whether the elements of a list differ from each other. -/
def allDistinct : List String → Bool
  | [] => true
  | x :: xs => !xs.contains x && allDistinct xs

/-- The fields of a record with the given names. As an array it may be shorter than the names if
`defaults` stand in for what is missing. -/
def fields (names : List String) (defaults : Bool) : Reading Fields
  | levels + 1, .object members => do
    let named ← members.mapM fun member => member.1.map fun key => (key, member.2)
    let known := named.filter fun member => names.contains member.1
    if allDistinct (known.map (·.1)) then some ⟨levels, known⟩ else none
  | levels + 1, .array items =>
    if items.length = names.length ∨ (defaults ∧ items.length < names.length) then
      some ⟨levels, names.zip items⟩
    else none
  | _, _ => none

namespace Fields

/-- The document given for a field. -/
def find? (fs : Fields) (name : String) : Option Document :=
  (fs.given.find? fun field => field.1 == name).map (·.2)

/-- A field that must be given. -/
def required {α : Type} (fs : Fields) (name : String) (read : Reading α) : Option α :=
  (fs.find? name).bind (read fs.levels)

/-- A field that may be missing or `null`. -/
def optional {α : Type} (fs : Fields) (name : String) (read : Reading α) : Option (Option α) :=
  match fs.find? name with
  | none => some none
  | some d => option read fs.levels d

/-- A field that is left as it is when missing. -/
def orElse {α : Type} (fs : Fields) (name : String) (default : α) (read : Reading α) : Option α :=
  match fs.find? name with
  | none => some default
  | some d => read fs.levels d

end Fields

/-- The value that a text spells out, read as a whole. -/
def parse {α : Type} (read : Reading α) (s : String) : Except Fault α :=
  match (Document.parse? s).bind (read Document.maxLevels) with
  | some a => .ok a
  | none => .error .malformed

end Form
end SalientGraph
