import SalientGraph.Json.Value

/-!
# JSON documents

The tree that a text spells out, before it is decided what the text is for. It
keeps everything that a reader of one kind or another may object to: members in
the order written and with their repetitions, numbers too large for a double,
texts with a broken escape, any depth of nesting. `Document.value?` turns a
document into a value if there is nothing to object to.
-/

namespace SalientGraph
namespace Json

/-- A document. A number that no double holds and a text with half of a surrogate pair are
absent; they do no harm where nobody reads them. -/
inductive Document where
  | null
  | bool (b : Bool)
  | number (n : Option JsonNumber)
  | text (s : Option String)
  | array (items : List Document)
  | object (members : List (Option String × Document))

namespace Document

/-- The number of levels of arrays and objects that a value may have inside one another. -/
def maxLevels : Nat := 127

mutual

/-- The value of a document that nests at most `levels` deep. Of several members with one key the
last one counts. -/
def value? (levels : Nat) : Document → Option Json
  | .null => some .null
  | .bool b => some (.bool b)
  | .number n => n.map .number
  | .text s => s.map .text
  | .array items =>
    match levels with
    | 0 => none
    | inner + 1 => (itemValues? inner items).map .array
  | .object members =>
    match levels with
    | 0 => none
    | inner + 1 => (memberValues? inner members).map ofMembers

def itemValues? (levels : Nat) : List Document → Option (List Json)
  | [] => some []
  | d :: rest => do
    let v ← d.value? levels
    let vs ← itemValues? levels rest
    some (v :: vs)

def memberValues? (levels : Nat) : List (Option String × Document) → Option (List (String × Json))
  | [] => some []
  | (key, d) :: rest => do
    let k ← key
    let v ← d.value? levels
    let ms ← memberValues? levels rest
    some ((k, v) :: ms)

end

/-- Whether nothing in a document, read or not, is to be objected to. -/
def isSound (levels : Nat) (d : Document) : Bool :=
  (d.value? levels).isSome

end Document
end Json
end SalientGraph
