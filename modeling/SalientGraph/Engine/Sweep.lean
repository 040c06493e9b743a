import SalientGraph.Engine.Catalog

/-!
# Sweeps

A sweep rates all nodes of a tenant anew, in the order of their identifiers and in
batches that are committed one by one. It writes only what has changed. The guard sees
to it that there is one sweep over a tenant at a time, and a sweep has a deadline of
its own.
-/

namespace SalientGraph
namespace Engine

variable (e : Engine)

/-- What a batch has come to. -/
structure Batch where
  /-- The nodes looked at, in the order of their identifiers. -/
  ids : List String
  /-- The number of nodes whose salience has changed. -/
  changed : Nat
deriving DecidableEq, Inhabited

/-- The number of nodes that fit a batch: as many as are configured, but one at least. -/
def batchSize : Nat :=
  max 1 e.config.sweep.batchSize

theorem one_le_batchSize : 1 ≤ e.batchSize :=
  Nat.le_max_left _ _

/-- Stages the salience of a node at `now`, if it has changed, and tells whether it has. -/
def refresh (tenant : Tenant) (now : Timestamp) (row : SealedNode) : TxAction Bool := do
  match row.relevance.refreshed? now with
  | none => return false
  | some fresh =>
    TxAction.step
      (TxAction.updateNode tenant row.id (RelevanceUpdate.ofScore fresh.salience now))

/-- Rates the nodes after a cursor, as many as fit a batch. -/
def batch (tenant : Tenant) (cursor : Option String) : TxAction Batch := do
  let rows ← TxAction.step (TxAction.nodesAfter tenant cursor e.batchSize)
  let now ← Action.now
  let changes ← rows.mapM (refresh tenant now)
  return ⟨rows.map (·.id), changes.countP id⟩

/-- Rates the nodes after a cursor, until a batch is not full. There are at most so many batches. -/
def sweepFrom (tenant : Tenant) : Nat → Option String → Action (List Batch)
  | 0, _ => return []
  | more + 1, cursor => do
    let done ← Action.transact .readWrite (e.batch tenant cursor)
    if done.ids.length < e.batchSize then return [done]
    else return done :: (← sweepFrom tenant more done.ids.getLast?)

/-- Rates all nodes of a tenant. Every batch but the last is full and no identifier comes twice, so
there is at most one batch more than there are nodes, those included that others write meanwhile. -/
def sweep (tenant : Tenant) : Action (List Batch) := fun scope w =>
  let nodes := w.store.nodeCount tenant + w.conditions.nodesWritten tenant
  e.sweepFrom tenant (nodes + 1) none scope w

/-- The number of changes that some batches have made. -/
def changesIn (batches : List Batch) : Nat :=
  batches.foldl (fun n done => n + done.changed) 0

/-- Takes the permit to sweep a tenant. -/
def acquire (tenant : Tenant) : Action Permit := fun _ w =>
  match w.guard.acquire tenant w.clock with
  | .ok (permit, guard) => .ok permit { w with guard := guard }
  | .error f => .error f w

/-- Returns a permit. -/
def release (permit : Permit) : Action Unit :=
  modify fun w => { w with guard := w.guard.release permit w.clock }

/-- Sweeps a tenant, unless a sweep over it is under way, and gives the number of nodes whose
salience has changed. What is committed before a fault stays. -/
def recalculate (tenant : Tenant) : Action Nat := do
  let permit ← acquire tenant
  let result ← Action.outcome do
    let batches ← Action.within (fun now scope => scope.child now e.config.sweep.deadlineMillis)
      (e.sweep tenant)
    if 0 < changesIn batches then
      Action.announce (.salienceRecalculated tenant (changesIn batches))
    return changesIn batches
  -- the permit goes back whatever became of the sweep
  release permit
  Action.ofOutcome result

end Engine
end SalientGraph
