import SalientGraph.Bytes
import SalientGraph.Double
import SalientGraph.Json.Value
import SalientGraph.Relevance.Update

/-!
# Nodes

The entities of a graph. A node carries its properties openly towards callers and
sealed in the store; the type parameter says which.
-/

namespace SalientGraph

/-- The payload of a stored entry: the bytes that a cipher made of its written properties. -/
structure Sealed where
  bytes : Bytes
deriving DecidableEq, Inhabited

/-- A node with its payload in the form `π`. -/
structure Node (π : Type) where
  id : String
  kind : String
  label : String
  properties : π
  embedding : Option (List Single)
  relevance : Relevance
deriving Inhabited

/-- A node as callers see it. -/
abbrev OpenNode := Node Properties

/-- A node as it is stored. -/
abbrev SealedNode := Node Sealed

/-- A node found by a query, with the score it was found with. -/
structure ScoredNode where
  node : OpenNode
  score : Float

namespace Node

variable {π ρ : Type}

/-- The node with another payload. -/
def withProperties (n : Node π) (properties : ρ) : Node ρ :=
  ⟨n.id, n.kind, n.label, properties, n.embedding, n.relevance⟩

/-- The node with its relevance changed. -/
def mapRelevance (f : Relevance → Relevance) (n : Node π) : Node π :=
  { n with relevance := f n.relevance }

/-- A node without properties created at `now`. -/
def create (id kind label : String) (now : Timestamp) : OpenNode :=
  ⟨id, kind, label, ∅, none, Relevance.fresh now⟩

end Node

namespace ScoredNode

def id (s : ScoredNode) : String :=
  s.node.id

end ScoredNode
end SalientGraph
