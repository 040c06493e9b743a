import SalientGraph.Edge
import SalientGraph.Form.Reading

/-!
# JSON forms of nodes and edges

How a node, an edge and a found node are written as JSON and read back. The score
fields stand beside the others, not in a record of their own. Single-precision
numbers are written as doubles, points in time as text.
-/

namespace SalientGraph
namespace Form

open Json (Document)

/-! ## Writing -/

def ofText (s : String) : Json :=
  .text s

def ofTimestamp (t : Timestamp) : Json :=
  .text (String.ofList t.write)

/-- A sealed payload as the array of its bytes. -/
def ofSealed (s : Sealed) : Json :=
  .array (s.bytes.map fun b => Json.nat b.toNat)

/-- The members for the score fields. -/
def relevanceMembers (r : Relevance) : List (String × Json) :=
  [ ("access_count", Json.nat r.accessCount.toNat),
    ("last_accessed", Json.ofOption ofTimestamp r.lastAccessed),
    ("salience", Json.ofFloat r.salience.toFloat),
    ("superseded_by", Json.ofOption ofText r.supersededBy),
    ("user_boosted", .bool r.userBoosted),
    ("created_at", ofTimestamp r.createdAt),
    ("updated_at", ofTimestamp r.updatedAt) ]

/-- The members for a node whose payload is written by `payload`. -/
def nodeMembers {π : Type} (payload : π → Json) (n : Node π) : List (String × Json) :=
  [ ("id", .text n.id),
    ("type", .text n.kind),
    ("label", .text n.label),
    ("properties", payload n.properties),
    ("embedding",
      Json.ofOption (fun v => .array (v.map fun x => Json.ofFloat x.toDouble.toFloat)) n.embedding) ]
  ++ relevanceMembers n.relevance

def ofNode (n : OpenNode) : Json :=
  Json.ofMembers (nodeMembers Json.ofProperties n)

def ofSealedNode (n : SealedNode) : Json :=
  Json.ofMembers (nodeMembers ofSealed n)

/-- A found node: its members and its score in one object. -/
def ofScoredNode (s : ScoredNode) : Json :=
  Json.ofMembers (nodeMembers Json.ofProperties s.node ++ [("score", Json.ofFloat s.score)])

/-- The members for an edge whose payload is written by `payload`. -/
def edgeMembers {π : Type} (payload : π → Json) (e : Edge π) : List (String × Json) :=
  [ ("source", .text e.source),
    ("target", .text e.target),
    ("relation", .text e.relation),
    ("weight", Json.ofFloat e.weight),
    ("properties", payload e.properties) ]
  ++ relevanceMembers e.relevance

def ofEdge (e : OpenEdge) : Json :=
  Json.ofMembers (edgeMembers Json.ofProperties e)

def ofSealedEdge (e : SealedEdge) : Json :=
  Json.ofMembers (edgeMembers ofSealed e)

/-! ## Reading -/

/-- The names of the score fields, in the order of their declaration. -/
def relevanceNames : List String :=
  ["access_count", "last_accessed", "salience", "superseded_by", "user_boosted", "created_at",
    "updated_at"]

/-- The score fields among the fields of a record. -/
def relevance (fs : Fields) : Option Relevance := do
  let accessCount ← fs.required "access_count" word
  let lastAccessed ← fs.optional "last_accessed" timestamp
  let salience := Double.ofFloat (← fs.required "salience" float)
  let supersededBy ← fs.optional "superseded_by" text
  let userBoosted ← fs.required "user_boosted" bool
  let createdAt ← fs.required "created_at" timestamp
  let updatedAt ← fs.required "updated_at" timestamp
  some ⟨UInt64.ofNat accessCount, lastAccessed, salience, supersededBy, userBoosted, createdAt,
    updatedAt⟩

def nodeNames : List String :=
  ["id", "type", "label", "properties", "embedding"] ++ relevanceNames

/-- A node whose payload is read by `payload`. -/
def node {π : Type} (payload : Reading π) : Reading (Node π) := fun levels d => do
  let fs ← fields nodeNames false levels d
  let id ← fs.required "id" text
  let kind ← fs.required "type" text
  let label ← fs.required "label" text
  let properties ← fs.required "properties" payload
  let embedding ← fs.optional "embedding" (list single)
  let relevance ← relevance fs
  some ⟨id, kind, label, properties, embedding, relevance⟩

def openNode : Reading OpenNode :=
  node properties

def sealedNode : Reading SealedNode :=
  node sealedBytes

/-- A found node. It has one object for its members and its score, so it has no array form, and
nothing in it may be unsound, whether the node knows it or not. -/
def scoredNode : Reading ScoredNode := fun levels d =>
  match d with
  | .object _ => do
    let found ← if d.isSound levels then openNode levels d else none
    let fs ← fields ["score"] false levels d
    let score ← fs.required "score" float
    some ⟨found, score⟩
  | _ => none

def edgeKey : Reading EdgeKey := fun levels d => do
  let fs ← fields ["source", "target", "relation"] false levels d
  let source ← fs.required "source" text
  let target ← fs.required "target" text
  let relation ← fs.required "relation" text
  some ⟨source, target, relation⟩

def edgeNames : List String :=
  ["source", "target", "relation", "weight", "properties"] ++ relevanceNames

/-- An edge whose payload is read by `payload`. -/
def edge {π : Type} (payload : Reading π) : Reading (Edge π) := fun levels d => do
  let fs ← fields edgeNames false levels d
  let source ← fs.required "source" text
  let target ← fs.required "target" text
  let relation ← fs.required "relation" text
  let weight ← fs.required "weight" float
  let properties ← fs.required "properties" payload
  let relevance ← relevance fs
  some ⟨source, target, relation, weight, properties, relevance⟩

def openEdge : Reading OpenEdge :=
  edge properties

def sealedEdge : Reading SealedEdge :=
  edge sealedBytes

end Form
end SalientGraph
