import SalientGraph.Json.Token

/-!
# Reading JSON

The second half of reading: the tokens of a text are put together to one document.
The reader is a machine that takes one token at a time and keeps the arrays and
objects that are still open on a stack, the innermost first. A text is a document
when its tokens take the machine from `start` to a finished state.
-/

namespace SalientGraph
namespace Json

/-- An array or object that is still open, with what has been read of it, the last entry first. -/
inductive Open where
  | array (items : List Document)
  | object (members : List (Option String × Document)) (key : Option String)

/-- What a reader has read and what it waits for. -/
inductive Reader where
  /-- A value must follow, or the end of the array if it has just been opened. -/
  | value (mayClose : Bool) (opened : List Open)
  /-- A key must follow, or the end of the object if it has just been opened. -/
  | key (mayClose : Bool) (members : List (Option String × Document)) (opened : List Open)
  /-- A colon must follow the key. -/
  | colon (key : Option String) (members : List (Option String × Document)) (opened : List Open)
  /-- A comma or the end of the array must follow. -/
  | item (items : List Document) (opened : List Open)
  /-- A comma or the end of the object must follow. -/
  | member (members : List (Option String × Document)) (opened : List Open)
  /-- Nothing may follow. -/
  | finished (d : Document)

namespace Reader

def start : Reader :=
  .value false []

/-- Hands a complete document to the innermost container that is open. -/
def complete (d : Document) : List Open → Reader
  | [] => .finished d
  | .array items :: opened => .item (d :: items) opened
  | .object members name :: opened => .member ((name, d) :: members) opened

/-- Takes one token. -/
def step : Reader → Token → Option Reader
  | .value _ opened, .scalar d => some (complete d opened)
  | .value _ opened, .text s => some (complete (.text s) opened)
  | .value _ opened, .openArray => some (.value true (.array [] :: opened))
  | .value _ opened, .openObject => some (.key true [] opened)
  | .value true (.array items :: opened), .closeArray =>
    some (complete (.array items.reverse) opened)
  | .key _ members opened, .text name => some (.colon name members opened)
  | .key true members opened, .closeObject => some (complete (.object members.reverse) opened)
  | .colon name members opened, .colon => some (.value false (.object members name :: opened))
  | .item items opened, .comma => some (.value false (.array items :: opened))
  | .item items opened, .closeArray => some (complete (.array items.reverse) opened)
  | .member members opened, .comma => some (.key false members opened)
  | .member members opened, .closeObject => some (complete (.object members.reverse) opened)
  | _, _ => none

end Reader

/-- The document that a text spells out. -/
def Document.parse? (s : String) : Option Document := do
  let ts ← tokens s.toList
  match ← ts.foldlM Reader.step Reader.start with
  | .finished d => some d
  | _ => none

/-- The value that a text spells out. -/
def parse? (s : String) : Option Json := do
  let d ← Document.parse? s
  d.value? Document.maxLevels

end Json
end SalientGraph
