import SalientGraph.Answer
import SalientGraph.Engine.Catalog
import SalientGraph.Traversal.PathSearch

/-!
# Traversals

The neighborhood of a node, the subgraph around it, the same by salience, and paths
with the fewest edges. Edges are followed in both directions. A traversal never fails
because of its bounds; its answer says that it is truncated.
-/

namespace SalientGraph
namespace Engine

variable (e : Engine)

/-! ## Neighborhoods -/

/-- The other ends of the edges of a node, each where it first occurs. -/
def otherEnds (id : String) (edges : List OpenEdge) : List String :=
  distinct ((edges.filterMap (·.otherEnd? id)).filter (· != id))

/-- The edges of a node in either direction, `limit` at most, with the nodes at their other ends. -/
def neighborhood (tenant : Tenant) (id : String) (limit : Nat) : TxAction Neighborhood := do
  let node ← TxAction.step (e.requireNode tenant id)
  let limit := e.config.traversal.neighborLimit limit
  let outgoing ← TxAction.step (e.edgesFrom tenant id limit)
  let incoming ← TxAction.step (e.edgesTo tenant id limit)
  let edges := outgoing ++ incoming
  let ids := (otherEnds id edges).take e.config.traversal.maxNodeFetch
  let neighbors ← TxAction.step (e.nodesInOrder tenant ids)
  return ⟨node, neighbors, edges⟩

def neighbors (tenant : Tenant) (id : String) (limit : Nat) : Action Neighborhood :=
  Action.transact .readOnly (e.neighborhood tenant id limit)

/-! ## Subgraphs -/

/-- The ends of the edges that touch a frontier, as far as one hop looks. -/
def hop (tenant : Tenant) (frontier : List String) : TxAction (List (String × String)) :=
  TxAction.step (TxAction.pairsTouching tenant frontier e.config.traversal.perHopEdgeLimit)

/-- Expands by so many hops, or until there is nothing new or no room. -/
def expand (tenant : Tenant) : Nat → Expansion → TxAction Expansion
  | 0, x => return x
  | hops + 1, x => do
    let limits := e.config.traversal
    if x.frontier.isEmpty then return x
    else if limits.maxVisited ≤ x.visited.size then return { x with truncated := true }
    else
      let pairs ← e.hop tenant x.frontier
      let grown := x.grow limits.maxVisited limits.perHopEdgeLimit pairs
      -- once a node was kept out there is no room for another hop
      if grown.full then return grown else expand tenant hops grown

/-- The nodes that an expansion has visited, and the edges among them. -/
def induced (tenant : Tenant) (x : Expansion) : TxAction Subgraph := do
  let limits := e.config.traversal
  let ids := x.order.take limits.maxNodeFetch
  let nodes ← TxAction.step (e.nodesInOrder tenant ids)
  let edges ← TxAction.step (e.edgesWithin tenant ids limits.maxSubgraphEdges)
  let truncated := x.truncated || limits.maxNodeFetch < x.order.length
    || limits.maxSubgraphEdges ≤ edges.length
  return ⟨nodes, edges, truncated⟩

/-- What can be reached from a node in so many hops. -/
def subgraph (tenant : Tenant) (id : String) (hops : Nat) : TxAction Subgraph := do
  let hops := min hops e.config.traversal.maxHops
  let root ← TxAction.step (e.requireNode tenant id)
  if hops = 0 then return ⟨[root], [], false⟩
  else
    let x ← e.expand tenant hops (Expansion.ofRoot id)
    e.induced tenant x

def traverse (tenant : Tenant) (id : String) (hops : Nat) : Action Subgraph :=
  Action.transact .readOnly (e.subgraph tenant id hops)

/-! ## Contexts -/

/-- Nodes by descending salience, then by identifier. -/
def nodeOrder (a b : OpenNode) : Ordering :=
  (descending a.relevance.salience b.relevance.salience).then (compare a.id b.id)

/-- Edges by descending salience, then by key. -/
def edgeOrder (a b : OpenEdge) : Ordering :=
  (descending a.relevance.salience b.relevance.salience).then (a.key.order b.key)

/-- The number of hops of a context: one at least. -/
def contextHops (hops : Nat) : Nat :=
  min (max hops 1) (max e.config.traversal.contextMaxHops 1)

/-- The surroundings of a node, the most salient first. -/
def context (tenant : Tenant) (id : String) (hops : Nat) : Action Context := do
  let found ← e.traverse tenant id (e.contextHops hops)
  match found.nodes.find? (·.id == id) with
  | some root =>
    let rest := found.nodes.eraseP (·.id == id)
    return ⟨root, sortedBy nodeOrder rest, sortedBy edgeOrder found.edges, found.truncated⟩
  | none => throw (.notFound ("node " ++ id))

/-! ## Paths -/

/-- Searches on from a frontier for so many hops at most. A frontier that is too large is sampled. -/
def seek (tenant : Tenant) (start : String) : Nat → List String → PathSearch → TxAction Path
  | 0, _, s => return .unreachable s.truncated
  | hops + 1, frontier, s => do
    let limits := e.config.traversal
    if frontier.isEmpty then return .unreachable s.truncated
    else
      let pairs ← e.hop tenant frontier
      let s := { s with
        truncated := s.truncated || saturated frontier pairs limits.perHopEdgeLimit }
      let p := s.expand frontier pairs
      if p.found then
        let nodes ← TxAction.step (e.nodesInOrder tenant (p.search.path start))
        return ⟨nodes, p.search.truncated⟩
      else if p.search.truncated && limits.pathMaxVisited ≤ p.search.visited.size then
        return .unreachable p.search.truncated
      else if limits.pathFrontierCap < p.added.length then
        let sample ← e.sample p.added limits.pathFrontierCap
        seek tenant start hops sample { p.search with truncated := true }
      else seek tenant start hops p.added p.search

/-- A path with the fewest edges between two nodes. -/
def path (tenant : Tenant) (start target : String) : TxAction Path := do
  if start = target then
    let node ← TxAction.step (e.requireNode tenant start)
    return ⟨[node], false⟩
  else if !(← TxAction.step (TxAction.hasNode tenant start)) then
    throw (.notFound ("node " ++ start))
  else if !(← TxAction.step (TxAction.hasNode tenant target)) then return .unreachable false
  else
    let limits := e.config.traversal
    e.seek tenant start limits.pathMaxHops [start]
      (PathSearch.ofStart start target limits.pathMaxVisited)

def shortestPath (tenant : Tenant) (start target : String) : Action Path :=
  Action.transact .readOnly (e.path tenant start target)

end Engine
end SalientGraph
