import SalientGraph.Proofs.Reading

/-!
# Editing

All that edits the graph of a tenant within a transaction is put together from reading
it, asking for the time, and the seven writes of the store. So whatever discipline these
obey, all of editing obeys.
-/

namespace SalientGraph

/-! ## What is done in the transactions of the operations -/

namespace Engine

variable (e : Engine)

/-- Boosts the row of a node. -/
def boostRow (tenant : Tenant) (id : String) : TxAction SealedNode := do
  let row ← requireRow tenant id
  let now ← Action.now
  rateNode tenant row { RelevanceUpdate.unscored now with boost := true }

theorem boostNode_eq_boostRow (tenant : Tenant) (id : String) : e.boostNode tenant id = (do
    let row ← Action.transact .readWrite (boostRow tenant id)
    Action.announce (.nodeBoosted tenant id)
    Action.ofOutcome (e.openNode tenant row)) := rfl

/-- Boosts the row of an edge. -/
def boostEdgeRow (tenant : Tenant) (key : EdgeKey) : TxAction SealedEdge := do
  match ← TxAction.step (TxAction.edge? tenant key) with
  | none => throw (.notFound ("edge " ++ key.text))
  | some row =>
    let now ← Action.now
    let u := { RelevanceUpdate.unscored now with boost := true }
    let (update, rated) := u.plan row
    if ← TxAction.step (TxAction.updateEdge tenant key update) then return rated
    else throw (.notFound ("edge " ++ key.text))

theorem boostEdge_eq_boostEdgeRow (tenant : Tenant) (key : EdgeKey) : e.boostEdge tenant key = (do
    let row ← Action.transact .readWrite (boostEdgeRow tenant key)
    Action.announce (.edgeBoosted tenant key)
    Action.ofOutcome (e.openEdge tenant row)) := rfl

end Engine

/-- Disciplines which the steps of reading and of editing the graph of a tenant obey. -/
structure Editable {ι κ : Type} (tenant : Tenant) (d : Discipline ι World)
    (t : Discipline κ Session) : Prop extends Readable tenant d t where
  now : d.Obeys Action.now
  putRow : ∀ row, t.Obeys (TxAction.putNode tenant row)
  deleteRow : ∀ id, t.Obeys (TxAction.deleteNode tenant id)
  updateRow : ∀ id u, t.Obeys (TxAction.updateNode tenant id u)
  putEdgeRow : ∀ row, t.Obeys (TxAction.putEdge tenant row)
  deleteEdgeRow : ∀ key, t.Obeys (TxAction.deleteEdge tenant key)
  updateEdgeRow : ∀ key u, t.Obeys (TxAction.updateEdge tenant key u)
  deleteEdgesTouching : ∀ id, t.Obeys (TxAction.deleteEdgesTouching tenant id)

namespace Editable

open Engine

variable {ι κ : Type} {tenant : Tenant} {d : Discipline ι World} {t : Discipline κ Session}
  (h : Editable tenant d t) (e : Engine)
include h

theorem time : t.Obeys (Action.inTransaction Action.now) :=
  h.inTransaction h.now

/-! ## Creating and removing -/

/-- To seal a payload concerns nobody, whoever owns it. -/
theorem sealPayload (owner : Tenant) (properties : Properties) :
    d.Obeys (e.sealPayload owner properties) :=
  h.draw.bind fun _ => (Discipline.Obeys.ofOutcome _).bind fun _ => .pure _

theorem putNode (node : OpenNode) : t.Obeys (e.putNode tenant node) :=
  (h.ofOutcome _).bind fun _ => h.time.bind fun _ =>
    (h.inTransaction (h.sealPayload e _ _)).bind fun _ => (h.putRow _).bind fun _ => .pure _

theorem putEdge (edge : OpenEdge) : t.Obeys (e.putEdge tenant edge) :=
  (h.ofOutcome _).bind fun _ => (h.checkEnd _).bind fun _ => (h.checkEnd _).bind fun _ =>
    h.time.bind fun _ => (h.inTransaction (h.sealPayload e _ _)).bind fun _ =>
      (h.putEdgeRow _).bind fun _ => .pure _

omit e

theorem deleteNode (id : String) : t.Obeys (deleteNode tenant id) :=
  (h.deleteEdgesTouching id).bind fun _ => h.deleteRow id

/-! ## Boosts, successors and accesses -/

theorem rateNode (row : SealedNode) (u : RelevanceUpdate) : t.Obeys (rateNode tenant row u) := by
  apply (h.step (h.updateRow row.id (u.plan row).1)).bind
  intro present
  cases present with
  | false => exact .throw _
  | true => exact .pure _

theorem boostRow (id : String) : t.Obeys (boostRow tenant id) :=
  (h.requireRow id).bind fun row => h.time.bind fun _ => h.rateNode row _

theorem boostEdgeRow (key : EdgeKey) : t.Obeys (boostEdgeRow tenant key) := by
  apply (h.step (h.reading _ _)).bind
  intro row
  cases row with
  | none => exact .throw _
  | some row =>
      apply h.time.bind
      intro now
      apply (h.step (h.updateEdgeRow key _)).bind
      intro present
      cases present with
      | false => exact .throw _
      | true => exact .pure _

theorem succeed (old new : String) : t.Obeys (succeed tenant old new) :=
  (h.requireRow old).bind fun oldRow => (h.requireRow new).bind fun newRow =>
    h.time.bind fun _ => (h.rateNode oldRow _).bind fun rated =>
      (h.rateNode newRow _).bind fun _ => .pure rated

theorem count (ids : List String) : t.Obeys (count tenant ids) :=
  (h.step (h.reading _ _)).bind fun rows => h.time.bind fun _ =>
    .mapM (fun row => h.rateNode row _) rows

/-! ## Sweeps -/

theorem refresh (now : Timestamp) (row : SealedNode) : t.Obeys (refresh tenant now row) := by
  unfold Engine.refresh
  cases row.relevance.refreshed? now with
  | none => exact .pure false
  | some fresh => exact h.step (h.updateRow _ _)

theorem batch (e : Engine) (cursor : Option String) : t.Obeys (e.batch tenant cursor) :=
  (h.step (h.reading _ _)).bind fun rows => h.time.bind fun now =>
    (Discipline.Obeys.mapM (h.refresh now) rows).bind fun _ => .pure _

end Editable
end SalientGraph
