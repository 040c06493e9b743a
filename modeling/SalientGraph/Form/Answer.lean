import SalientGraph.Answer
import SalientGraph.ChangeEvent
import SalientGraph.Form.Entry

/-!
# JSON forms of answers and events

How the answers of traversals and the change events are written and read. An event
has its kind in the member `event` beside its other members.
-/

namespace SalientGraph
namespace Form

open Json (Document)

/-! ## Answers -/

def path : Reading Path := fun levels d => do
  let fs ← fields ["nodes", "truncated"] false levels d
  let nodes ← fs.required "nodes" (list openNode)
  let truncated ← fs.required "truncated" bool
  some ⟨nodes, truncated⟩

def subgraph : Reading Subgraph := fun levels d => do
  let fs ← fields ["nodes", "edges", "truncated"] false levels d
  let nodes ← fs.required "nodes" (list openNode)
  let edges ← fs.required "edges" (list openEdge)
  let truncated ← fs.required "truncated" bool
  some ⟨nodes, edges, truncated⟩

def context : Reading Context := fun levels d => do
  let fs ← fields ["root", "nodes", "edges", "truncated"] false levels d
  let root ← fs.required "root" openNode
  let nodes ← fs.required "nodes" (list openNode)
  let edges ← fs.required "edges" (list openEdge)
  let truncated ← fs.required "truncated" bool
  some ⟨root, nodes, edges, truncated⟩

def neighborhood : Reading Neighborhood := fun levels d => do
  let fs ← fields ["node", "neighbors", "edges"] false levels d
  let node ← fs.required "node" openNode
  let neighbors ← fs.required "neighbors" (list openNode)
  let edges ← fs.required "edges" (list openEdge)
  some ⟨node, neighbors, edges⟩

def ofNeighborhood (n : Neighborhood) : Json :=
  Json.ofMembers
    [ ("node", ofNode n.node),
      ("neighbors", .array (n.neighbors.map ofNode)),
      ("edges", .array (n.edges.map ofEdge)) ]

/-! ## Events -/

def ofEdgeKey (k : EdgeKey) : Json :=
  Json.ofMembers
    [("source", .text k.source), ("target", .text k.target), ("relation", .text k.relation)]

def ofChangeEvent : ChangeEvent → Json
  | .nodeBoosted tenant id =>
    Json.ofMembers [("event", .text "node_boosted"), ("tenant", .text tenant.name), ("id", .text id)]
  | .edgeBoosted tenant key =>
    Json.ofMembers
      [("event", .text "edge_boosted"), ("tenant", .text tenant.name), ("key", ofEdgeKey key)]
  | .nodeSuperseded tenant old new =>
    Json.ofMembers
      [ ("event", .text "node_superseded"), ("tenant", .text tenant.name), ("old_id", .text old),
        ("new_id", .text new) ]
  | .nodesAccessed tenant ids =>
    Json.ofMembers
      [ ("event", .text "nodes_accessed"), ("tenant", .text tenant.name),
        ("ids", .array (ids.map .text)) ]
  | .salienceRecalculated tenant updated =>
    Json.ofMembers
      [ ("event", .text "salience_recalculated"), ("tenant", .text tenant.name),
        ("updated", Json.nat updated) ]

def tenant : Reading Tenant := fun levels d =>
  (text levels d).map .mk

/-- The names of the members of each kind of event. -/
def eventNames : List (String × List String) :=
  [ ("node_boosted", ["tenant", "id"]),
    ("edge_boosted", ["tenant", "key"]),
    ("node_superseded", ["tenant", "old_id", "new_id"]),
    ("nodes_accessed", ["tenant", "ids"]),
    ("salience_recalculated", ["tenant", "updated"]) ]

/-- The event of a given kind with the given fields. -/
def eventOfKind (kind : String) (fs : Fields) : Option ChangeEvent := do
  let owner ← fs.required "tenant" tenant
  match kind with
  | "node_boosted" => (fs.required "id" text).map (.nodeBoosted owner)
  | "edge_boosted" => (fs.required "key" edgeKey).map (.edgeBoosted owner)
  | "node_superseded" => do
    let old ← fs.required "old_id" text
    let new ← fs.required "new_id" text
    some (.nodeSuperseded owner old new)
  | "nodes_accessed" => (fs.required "ids" (list text)).map (.nodesAccessed owner)
  | "salience_recalculated" => (fs.required "updated" word).map (.salienceRecalculated owner)
  | _ => none

/-- An event. As an array it has its kind in front of its fields. Nothing in it may be unsound,
whether the event knows it or not. -/
def changeEvent : Reading ChangeEvent := fun levels d => do
  let kind ←
    if !d.isSound levels then none
    else
      match d with
      | .array (.text kind :: _) => kind
      | .object _ => (fields ["event"] false levels d).bind fun fs => fs.required "event" text
      | _ => none
  let names ← (eventNames.find? fun names => names.1 == kind).map (·.2)
  let body := match d with
    | .array (_ :: rest) => Document.array rest
    | other => other
  let fs ← fields names false levels body
  eventOfKind kind fs

end Form
end SalientGraph
