import SalientGraph.Engine.Entries
import SalientGraph.Engine.Salience
import SalientGraph.Engine.Search
import SalientGraph.Engine.Sweep
import SalientGraph.Engine.Traversal

/-!
# Calls

All that callers can ask of an engine, with what they get, and series of calls one after
another. Each call comes at a time of its own, with the scope, the calendar, the random
draws and the behavior of the store that it happens to meet.
-/

namespace SalientGraph

/-- What a caller can ask for in the graph of a tenant. -/
inductive Call where
  | createNode (node : OpenNode)
  | createEdge (edge : OpenEdge)
  | getNode (id : String)
  | getEdge (key : EdgeKey)
  | removeNode (id : String)
  | removeEdge (key : EdgeKey)
  | neighbors (id : String) (limit : Nat)
  | traverse (id : String) (hops : Nat)
  | context (id : String) (hops : Nat)
  | shortestPath (start target : String)
  | fullTextSearch (q : TextQuery) (limit : Nat)
  | semanticSearch (embedding : List Single) (limit : Nat)
  | hybridSearch (text : String) (embedding : Option (List Single)) (limit : Nat)
  | boostNode (id : String)
  | boostEdge (key : EdgeKey)
  | supersedeNode (old new : String)
  | recordAccess (ids : List String)
  | recalculate

/-- Whether the call only reads. -/
def Call.isReading : Call → Bool
  | .getNode _ | .getEdge _ | .neighbors _ _ | .traverse _ _ | .context _ _ | .shortestPath _ _
  | .fullTextSearch _ _ | .semanticSearch _ _ | .hybridSearch _ _ _ => true
  | _ => false

/-- What a caller gets. -/
inductive Call.Answer where
  | node (node : OpenNode)
  | edge (edge : OpenEdge)
  | removed (present : Bool)
  | neighborhood (found : Neighborhood)
  | subgraph (found : Subgraph)
  | context (found : Context)
  | path (found : Path)
  | nodes (found : List OpenNode)
  | scored (found : List ScoredNode)
  | changed (number : Nat)

/-- A call of a tenant, with the circumstances in which it is made. Nobody else uses the store while
it is served. -/
structure Occasion where
  tenant : Tenant
  call : Call
  scope : Scope
  clock : Nat
  wall : Nat → Timestamp
  draws : Nat
  served : Nat
  conditions : Conditions
  alone : conditions.others = []

/-- What comes of a call: its outcome, and the events announced in the course of it. -/
structure Reply where
  tenant : Tenant
  outcome : Except Fault Call.Answer
  events : List ChangeEvent

/-- The world as the call meets it. -/
def World.arrive (w : World) (o : Occasion) : World :=
  { w.advance o.clock with
    wall := o.wall
    draws := o.draws
    served := o.served
    conditions := o.conditions }

namespace Engine

variable (e : Engine)

/-- Serves a call in the graph of a tenant. -/
def perform (tenant : Tenant) : Call → Action Call.Answer
  | .createNode node => return .node (← e.createNode tenant node)
  | .createEdge edge => return .edge (← e.createEdge tenant edge)
  | .getNode id => return .node (← e.getNode tenant id)
  | .getEdge key => return .edge (← e.getEdge tenant key)
  | .removeNode id => return .removed (← removeNode tenant id)
  | .removeEdge key => return .removed (← removeEdge tenant key)
  | .neighbors id limit => return .neighborhood (← e.neighbors tenant id limit)
  | .traverse id hops => return .subgraph (← e.traverse tenant id hops)
  | .context id hops => return .context (← e.context tenant id hops)
  | .shortestPath start target => return .path (← e.shortestPath tenant start target)
  | .fullTextSearch q limit => return .nodes (← e.fullTextSearch tenant q limit)
  | .semanticSearch embedding limit => return .scored (← e.semanticSearch tenant embedding limit)
  | .hybridSearch text embedding limit =>
    return .scored (← e.hybridSearch tenant text embedding limit)
  | .boostNode id => return .node (← e.boostNode tenant id)
  | .boostEdge key => return .edge (← e.boostEdge tenant key)
  | .supersedeNode old new => return .node (← e.supersedeNode tenant old new)
  | .recordAccess ids => return .nodes (← e.recordAccess tenant ids)
  | .recalculate => return .changed (← e.recalculate tenant)

/-- Serves one call. -/
def serve (o : Occasion) (w : World) : Reply × World :=
  match e.perform o.tenant o.call o.scope (w.arrive o) with
  | .ok answer v => (⟨o.tenant, .ok answer, v.announced.drop w.announced.length⟩, v)
  | .error f v => (⟨o.tenant, .error f, v.announced.drop w.announced.length⟩, v)

/-- Serves several calls one after another. -/
def serveAll : List Occasion → World → List Reply × World
  | [], w => ([], w)
  | o :: rest, w =>
    ((e.serve o w).1 :: (serveAll rest (e.serve o w).2).1, (serveAll rest (e.serve o w).2).2)

end Engine
end SalientGraph
