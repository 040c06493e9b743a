import SalientGraph.Node

/-!
# Edges

The directed relations between nodes. An edge is identified by its two ends and the
name of the relation, so there is at most one of each relation between two nodes in
one direction. Keys are ordered by source, then target, then relation.
-/

namespace SalientGraph

/-- What identifies an edge within a tenant. -/
structure EdgeKey where
  source : String
  target : String
  relation : String
deriving DecidableEq, Inhabited

namespace EdgeKey

/-- The key as a text, drawn as an arrow. -/
def text (k : EdgeKey) : String :=
  "(" ++ k.source ++ ")-[" ++ k.relation ++ "]->(" ++ k.target ++ ")"

/-- The order of keys: by source, then target, then relation. -/
def order (a b : EdgeKey) : Ordering :=
  (compare a.source b.source).then
    ((compare a.target b.target).then (compare a.relation b.relation))

theorem order_eq : order =
    compareLex (compareOn EdgeKey.source)
      (compareLex (compareOn EdgeKey.target) (compareOn EdgeKey.relation)) := rfl

instance : Std.TransCmp order :=
  order_eq ▸ inferInstance

instance : Std.LawfulEqCmp order where
  eq_of_compare {a b} h := by
    simp only [order, Ordering.then_eq_eq, Std.LawfulEqOrd.compare_eq_iff_eq] at h
    cases a
    cases b
    simp_all

end EdgeKey

/-- An edge with its payload in the form `π`. -/
structure Edge (π : Type) where
  source : String
  target : String
  relation : String
  weight : Float
  properties : π
  relevance : Relevance
deriving Inhabited

/-- An edge as callers see it. -/
abbrev OpenEdge := Edge Properties

/-- An edge as it is stored. -/
abbrev SealedEdge := Edge Sealed

namespace Edge

variable {π ρ : Type}

def key (e : Edge π) : EdgeKey :=
  ⟨e.source, e.target, e.relation⟩

/-- Whether the node is at either end. -/
def touches (e : Edge π) (id : String) : Bool :=
  e.source == id || e.target == id

/-- The end opposite to a node, if the node is at one end. Seen from both ends at once, the
opposite of the source counts. -/
def otherEnd? (e : Edge π) (id : String) : Option String :=
  if id = e.source then some e.target
  else if id = e.target then some e.source
  else none

/-- The edge with another payload. -/
def withProperties (e : Edge π) (properties : ρ) : Edge ρ :=
  ⟨e.source, e.target, e.relation, e.weight, properties, e.relevance⟩

/-- The edge with its relevance changed. -/
def mapRelevance (f : Relevance → Relevance) (e : Edge π) : Edge π :=
  { e with relevance := f e.relevance }

/-- An edge of weight 1 without properties created at `now`. -/
def create (key : EdgeKey) (now : Timestamp) : OpenEdge :=
  ⟨key.source, key.target, key.relation, 1.0, ∅, Relevance.fresh now⟩

end Edge
end SalientGraph
