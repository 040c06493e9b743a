import SalientGraph.Store.Basic
import SalientGraph.Text.Terms

/-!
# Ranked candidates

The nodes that answer a query, the best first: by the terms of a text that they
share, or by the angle between embeddings. Only labels and kinds are searched for
terms, since the properties are sealed.
-/

namespace SalientGraph

/-- A search for the terms of a text among the nodes of a kind and of a salience, if these are
given. -/
structure TextQuery where
  text : String
  kind : Option String := none
  minSalience : Option Float := none

/-- A sealed node with the rank by which it was found. -/
structure Candidate where
  node : SealedNode
  rank : Double

/-! ## By terms -/

namespace TextQuery

/-- Whether a node is of the kind and of the salience that are asked for. -/
def admits (q : TextQuery) (n : SealedNode) : Bool :=
  q.kind.all (n.kind == ·) && q.minSalience.all (· ≤ n.relevance.salience.toFloat)

end TextQuery

/-- The number of a list of terms that occur in the label or the kind of a node. -/
def sharedTerms (terms : List String) (n : SealedNode) : Nat :=
  let present := Text.terms n.label ++ Text.terms n.kind
  terms.countP present.contains

/-- The share of a list of terms that occur in a node. -/
def termRank (terms : List String) (n : SealedNode) : Float :=
  (UInt64.ofNat (sharedTerms terms n)).toFloat / (UInt64.ofNat terms.length).toFloat

/-- By descending rank, then by descending salience, then by identifier. -/
def Candidate.byTerms (a b : Candidate) : Ordering :=
  (descending a.rank b.rank).then
    ((descending a.node.relevance.salience b.node.relevance.salience).then
      (compare a.node.id b.node.id))

/-! ## By embeddings -/

/-- The sums that make up the cosine of the angle between two vectors. -/
structure CosineSums where
  product : Float
  left : Float
  right : Float

/-- The sums with one more coordinate of each vector. -/
def CosineSums.add (s : CosineSums) (x y : Float) : CosineSums :=
  ⟨s.product + x * y, s.left + x * x, s.right + y * y⟩

/-- The coordinates of two vectors side by side. -/
def coordinates (a b : List Single) : List (Double × Double) :=
  List.zipWith (fun x y => (x.toDouble, y.toDouble)) a b

/-- What a sum of products becomes at the first coordinate after which it is no number. It is a
coordinate that is none itself, or undefined if infinities cancel each other. -/
def lostAt (product : Float) : List (Double × Double) → Double
  | [] => .undefined
  | (x, y) :: rest =>
    if x.isNaN then x
    else if y.isNaN then y
    else
      let sum := product + x.toFloat * y.toFloat
      if sum.isNaN then .undefined else lostAt sum rest

/-- The cosine of the angle between two vectors, unless one of them has no length. -/
def cosine? (a b : List Single) : Option Double :=
  let pairs := coordinates a b
  let s := pairs.foldl (fun (s : CosineSums) c => s.add c.1.toFloat c.2.toFloat) ⟨0.0, 0.0, 0.0⟩
  -- a sum of squares is zero only if no coordinate counts
  if s.left == 0.0 || s.right == 0.0 then none
  else
    let cosine := s.product / (s.left.sqrt * s.right.sqrt)
    some (if cosine.isNaN then lostAt 0.0 pairs else .ofFloat cosine)

/-- The node as a candidate for an embedding, if the embeddings can be compared. -/
def vectorCandidate? (embedding : List Single) (n : SealedNode) : Option Candidate := do
  let own ← n.embedding
  if own.length = embedding.length then some ⟨n, ← cosine? embedding own⟩
  else none

/-- By descending cosine, then by identifier. -/
def Candidate.byCosine (a b : Candidate) : Ordering :=
  (descending a.rank b.rank).then (compare a.node.id b.node.id)

namespace View

/-- The `limit` best nodes that share terms with a query. A text without terms finds nothing. -/
def textCandidates (v : View) (q : TextQuery) (limit : Nat) : List Candidate :=
  let terms := Text.terms q.text
  if terms.isEmpty then []
  else
    best Candidate.byTerms limit
      (((v.nodes.filter q.admits).filter fun n => 0 < sharedTerms terms n).map
        fun n => ⟨n, .ofFloat (termRank terms n)⟩)

/-- The `limit` nodes with the embeddings closest to another one. -/
def vectorCandidates (v : View) (embedding : List Single) (limit : Nat) : List Candidate :=
  best Candidate.byCosine limit (v.nodes.filterMap (vectorCandidate? embedding))

end View
end SalientGraph
