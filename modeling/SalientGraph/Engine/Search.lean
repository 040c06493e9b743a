import SalientGraph.Engine.Catalog
import SalientGraph.Fusion

/-!
# Searches

Nodes by the terms of a text, by an embedding, or by both with the two rankings fused.
A hybrid search gets by without its vector side: when the embedding cannot be made or
the ranking by it fails, the answer is the one of the text side alone.
-/

namespace SalientGraph
namespace Engine

variable (e : Engine)

/-- The nodes that share terms with a query, as far as the store can tell. -/
def textSide (tenant : Tenant) (q : TextQuery) (limit : Nat) : TxAction (List ScoredNode) := do
  if ← Action.hasFullText then TxAction.step (e.textCandidates tenant q limit)
  else throw (.unavailable "store has no full-text index")

/-- The nodes closest to an embedding, as far as the store can tell. -/
def vectorSide (tenant : Tenant) (embedding : List Single) (limit : Nat) :
    TxAction (List ScoredNode) := do
  if embedding.isEmpty then throw (.invalidArgument "query embedding is empty")
  else if ← Action.vectorOnline then TxAction.step (e.vectorCandidates tenant embedding limit)
  else throw (.unavailable "store has no vector index")

/-- The nodes that share terms with a text. A blank text finds nothing. -/
def fullTextSearch (tenant : Tenant) (q : TextQuery) (limit : Nat) : Action (List OpenNode) := do
  if Text.isBlank q.text then return []
  else
    let found ← Action.transact .readOnly (e.textSide tenant q (e.config.search.limit limit))
    return found.map (·.node)

/-- The nodes closest to an embedding. -/
def semanticSearch (tenant : Tenant) (embedding : List Single) (limit : Nat) :
    Action (List ScoredNode) :=
  Action.transact .readOnly (e.vectorSide tenant embedding (e.config.search.limit limit))

/-! ## Both at once -/

/-- Asks the embedder for the vector of a text. -/
def consult (embedder : Embedder) (text : String) : Action (List Single) :=
  Action.run (embedder.latency text) (embedder.embed text)

/-- The vector of a text. The embedder's own faults say no more than that there is none. -/
def embed (text : String) : Action (List Single) := do
  match e.embedder with
  | none => throw (.unavailable "no query embedding and no embedder configured")
  | some embedder =>
    if Text.isBlank text then throw (.unavailable "nothing to embed")
    else
      match ← Action.outcome (consult embedder text) with
      | .ok vector => return vector
      | .error f =>
        if f.isInterruption then throw f
        else throw (.unavailable ("embedder failed: " ++ f.message))

/-- The text side of a hybrid search. -/
def hybridText (tenant : Tenant) (text : String) (limit : Nat) : TxAction (List ScoredNode) :=
  if Text.isBlank text then return [] else e.textSide tenant { text := text } limit

/-- The vector side of a hybrid search, with the vector of the text unless another one is given. -/
def hybridVector (tenant : Tenant) (text : String) (embedding : Option (List Single))
    (limit : Nat) : TxAction (List ScoredNode) := do
  match embedding with
  | some vector => e.vectorSide tenant vector limit
  | none => e.vectorSide tenant (← e.embed text) limit

/-- What the vector side contributes: nothing when it failed, unless it was interrupted. -/
def vectorHits : Except Fault (List ScoredNode) → Except Fault (List ScoredNode)
  | .ok found => .ok found
  | .error f => if f.isInterruption then .error f else .ok []

/-- Both sides at the same time, with their rankings fused. -/
def hybrid (tenant : Tenant) (text : String) (embedding : Option (List Single)) (limit : Nat) :
    TxAction (List ScoredNode) := do
  let (textOutcome, vectorOutcome) ← TxAction.alongside (e.hybridText tenant text limit)
    (e.hybridVector tenant text embedding limit)
  -- a fault of the text side counts first
  let byText ← Action.ofOutcome textOutcome
  let byVector ← Action.ofOutcome (vectorHits vectorOutcome)
  return Fusion.fuse [byText, byVector] limit

/-- The nodes that match a text by its terms or its vector, or another vector that is given. -/
def hybridSearch (tenant : Tenant) (text : String) (embedding : Option (List Single))
    (limit : Nat) : Action (List ScoredNode) :=
  Action.transact .readOnly (e.hybrid tenant text embedding (e.config.search.limit limit))

end Engine
end SalientGraph
