import SalientGraph.Edge

/-!
# Answers of traversals

The shapes in which parts of a graph are handed to a caller. An answer that a bound
cut short says so.
-/

namespace SalientGraph

/-- A node with everything one hop away from it. -/
structure Neighborhood where
  node : OpenNode
  /-- The nodes at the other ends, each once and without the node itself. -/
  neighbors : List OpenNode
  /-- The outgoing edges, then the incoming ones. -/
  edges : List OpenEdge

/-- What can be reached from a root, with the edges inside. -/
structure Subgraph where
  /-- The root, then the other nodes in the order of their discovery. -/
  nodes : List OpenNode
  edges : List OpenEdge
  truncated : Bool

/-- The surroundings of a node, the most salient first. -/
structure Context where
  root : OpenNode
  nodes : List OpenNode
  edges : List OpenEdge
  truncated : Bool

/-- The nodes along a path from its start to its end, none when there is no path. -/
structure Path where
  nodes : List OpenNode
  truncated : Bool

namespace Subgraph

def ids (s : Subgraph) : List String :=
  s.nodes.map (·.id)

def contains (s : Subgraph) (id : String) : Bool :=
  s.nodes.any fun n => n.id == id

end Subgraph

namespace Path

/-- No path was found. -/
def unreachable (truncated : Bool) : Path :=
  ⟨[], truncated⟩

/-- The number of edges along the path. -/
def hops (p : Path) : Nat :=
  p.nodes.length - 1

def isEmpty (p : Path) : Bool :=
  p.nodes.isEmpty

def ids (p : Path) : List String :=
  p.nodes.map (·.id)

end Path
end SalientGraph
