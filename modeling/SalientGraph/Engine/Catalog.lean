import SalientGraph.Engine.Basic
import SalientGraph.Json.Reader
import SalientGraph.Json.Writer
import SalientGraph.Text.Blank

/-!
# The catalog

Nodes and edges as callers see them, over the rows as the store keeps them: payloads
are sealed on the way in and opened on the way out. What is put into the catalog is
checked first and rated anew, so that a stored salience is always the score at the
time of the last update.
-/

namespace SalientGraph
namespace Engine

variable (e : Engine)

/-! ## Payloads -/

/-- Seals a payload under a new nonce. -/
def sealPayload (tenant : Tenant) (properties : Properties) : Action Sealed := do
  let nonce := e.nonce (← Action.draw)
  let bytes ← Action.ofOutcome
    (e.cipher.encrypt nonce tenant (Bytes.ofString (Json.ofProperties properties).render))
  return ⟨bytes⟩

/-- Opens a payload. Nothing at all is an empty payload under every cipher. -/
def openPayload (tenant : Tenant) (payload : Sealed) : Except Fault Properties :=
  if payload.bytes.isEmpty then .ok ∅
  else do
    let plain ← e.cipher.decrypt tenant payload.bytes
    match (Bytes.toString? plain).bind Json.parse? with
    | some (.object members) => .ok (Json.properties members)
    | _ => .error .malformed

def openNode (tenant : Tenant) (row : SealedNode) : Except Fault OpenNode := do
  return row.withProperties (← e.openPayload tenant row.properties)

def openEdge (tenant : Tenant) (row : SealedEdge) : Except Fault OpenEdge := do
  return row.withProperties (← e.openPayload tenant row.properties)

/-- Opens all nodes of a list, or fails with the first that cannot be opened. -/
def openNodes (tenant : Tenant) (rows : List SealedNode) : Except Fault (List OpenNode) :=
  rows.mapM (e.openNode tenant)

/-- Opens all edges of a list, or fails with the first that cannot be opened. -/
def openEdges (tenant : Tenant) (rows : List SealedEdge) : Except Fault (List OpenEdge) :=
  rows.mapM (e.openEdge tenant)

/-- Opens all candidates of a list, or fails with the first that cannot be opened. -/
def openCandidates (tenant : Tenant) (found : List Candidate) : Except Fault (List ScoredNode) :=
  found.mapM fun c => return ⟨← e.openNode tenant c.node, c.rank.toFloat⟩

/-! ## Nodes -/

def node? (tenant : Tenant) (id : String) : TxAction (Option OpenNode) := do
  match ← TxAction.node? tenant id with
  | some row => return some (← Action.ofOutcome (e.openNode tenant row))
  | none => return none

/-- The node with the given identifier, which must be there. -/
def requireNode (tenant : Tenant) (id : String) : TxAction OpenNode := do
  match ← e.node? tenant id with
  | some node => return node
  | none => throw (.notFound ("node " ++ id))

def nodesInOrder (tenant : Tenant) (ids : List String) : TxAction (List OpenNode) := do
  Action.ofOutcome (e.openNodes tenant (← TxAction.nodesInOrder tenant ids))

/-- Whether a node may be put into the catalog. -/
def checkNode (node : OpenNode) : Except Fault Unit :=
  if Text.isBlank node.id then .error (.invalidArgument "node id must not be empty")
  else if node.relevance.supersededBy = some node.id then
    .error (.invalidArgument ("node " ++ node.id ++ " cannot supersede itself"))
  else .ok ()

/-- Puts a node, new or in place of another one. Whatever salience it comes with is ignored. -/
def putNode (tenant : Tenant) (node : OpenNode) : TxAction OpenNode := do
  Action.ofOutcome (checkNode node)
  let now ← Action.now
  let rated := node.mapRelevance (·.scoredAt now)
  let payload ← e.sealPayload tenant rated.properties
  TxAction.putNode tenant (rated.withProperties payload)
  return rated

/-- Deletes a node and all edges that touch it, also when there is no such node. -/
def deleteNode (tenant : Tenant) (id : String) : TxAction Bool := do
  let _ ← TxAction.deleteEdgesTouching tenant id
  TxAction.deleteNode tenant id

/-! ## Edges -/

def edge? (tenant : Tenant) (key : EdgeKey) : TxAction (Option OpenEdge) := do
  match ← TxAction.edge? tenant key with
  | some row => return some (← Action.ofOutcome (e.openEdge tenant row))
  | none => return none

def edgesFrom (tenant : Tenant) (id : String) (limit : Nat) : TxAction (List OpenEdge) := do
  Action.ofOutcome (e.openEdges tenant (← TxAction.edgesFrom tenant id limit))

def edgesTo (tenant : Tenant) (id : String) (limit : Nat) : TxAction (List OpenEdge) := do
  Action.ofOutcome (e.openEdges tenant (← TxAction.edgesTo tenant id limit))

def edgesWithin (tenant : Tenant) (ids : List String) (limit : Nat) : TxAction (List OpenEdge) := do
  Action.ofOutcome (e.openEdges tenant (← TxAction.edgesWithin tenant ids limit))

/-- Whether an edge by itself may be put into the catalog. -/
def checkEdge (edge : OpenEdge) : Except Fault Unit :=
  if Text.isBlank edge.relation then .error (.invalidArgument "edge relation must not be empty")
  else if edge.weight.isFinite then .ok ()
  else .error (.invalidArgument ("edge " ++ edge.key.text ++ " has non-finite weight"))

/-- Whether an end of an edge is there. -/
def checkEnd (tenant : Tenant) (id : String) : TxAction Unit := do
  if ← TxAction.hasNode tenant id then return ()
  else throw (.notFound ("edge endpoint " ++ id))

/-- Puts an edge, new or in place of another one. Both its ends must be there. -/
def putEdge (tenant : Tenant) (edge : OpenEdge) : TxAction OpenEdge := do
  Action.ofOutcome (checkEdge edge)
  checkEnd tenant edge.source
  checkEnd tenant edge.target
  let now ← Action.now
  let rated := edge.mapRelevance (·.scoredAt now)
  let payload ← e.sealPayload tenant rated.properties
  TxAction.putEdge tenant (rated.withProperties payload)
  return rated

/-! ## Candidates -/

def textCandidates (tenant : Tenant) (q : TextQuery) (limit : Nat) : TxAction (List ScoredNode) := do
  Action.ofOutcome (e.openCandidates tenant (← TxAction.textCandidates tenant q limit))

def vectorCandidates (tenant : Tenant) (embedding : List Single) (limit : Nat) :
    TxAction (List ScoredNode) := do
  Action.ofOutcome (e.openCandidates tenant (← TxAction.vectorCandidates tenant embedding limit))

end Engine
end SalientGraph
