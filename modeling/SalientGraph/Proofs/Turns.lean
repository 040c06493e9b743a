import SalientGraph.Engine.Catalog
import SalientGraph.Proofs.Transacting

/-!
# Turns

Series of transactions one after another. In each turn one transaction is opened, the
graphs of any tenants are edited in it, and it is committed or rolled back in the end.
An edit that fails leaves the transaction open, and the next one is tried.
-/

namespace SalientGraph

/-- An edit of the graph of a tenant. -/
inductive Edit where
  | putNode (node : OpenNode)
  | deleteNode (id : String)
  | putEdge (edge : OpenEdge)
  | deleteEdge (key : EdgeKey)
  | updateNode (id : String) (u : RelevanceUpdate)
  | updateEdge (key : EdgeKey) (u : RelevanceUpdate)

/-- An edit for a tenant, and the scope it is tried in. -/
structure TenantEdit where
  tenant : Tenant
  edit : Edit
  scope : Scope

/-- A transaction from its beginning to its end, both in the same scope. -/
structure Turn where
  access : Access
  edits : List TenantEdit
  commits : Bool
  scope : Scope

namespace Engine

variable (e : Engine)

/-- Makes an edit. -/
def edit (tenant : Tenant) : Edit → TxAction Unit
  | .putNode node => do let _ ← e.putNode tenant node
  | .deleteNode id => do let _ ← deleteNode tenant id
  | .putEdge edge => do let _ ← e.putEdge tenant edge
  | .deleteEdge key => do let _ ← TxAction.deleteEdge tenant key
  | .updateNode id u => do let _ ← TxAction.updateNode tenant id u
  | .updateEdge key u => do let _ ← TxAction.updateEdge tenant key u

/-- The session after one edit, whether or not it fails. -/
def tryEdit (s : Session) (t : TenantEdit) : Session :=
  finalState (e.edit t.tenant t.edit t.scope s)

/-- The session after several edits one after another. -/
def editAll (edits : List TenantEdit) (s : Session) : Session :=
  edits.foldl e.tryEdit s

/-- Ends a transaction. -/
def finish (commits : Bool) (tx : Transaction) : Action Unit :=
  if commits then Action.commit tx else Action.rollback

/-- The world after one turn, whether or not the transaction can be begun and ended. -/
def takeTurn (w : World) (t : Turn) : World :=
  match Action.begin t.access t.scope w with
  | .error _ w => w
  | .ok tx w =>
    let s := e.editAll t.edits ⟨w, tx⟩
    finalState (finish t.commits s.tx t.scope s.world)

/-- The world after several turns one after another. -/
def takeTurns (turns : List Turn) (w : World) : World :=
  turns.foldl e.takeTurn w

end Engine
end SalientGraph
