import SalientGraph.Engine.Catalog

/-!
# Boosts, successors and accesses

The operations that change what a salience is computed from. Each stages updates of
relevance in one transaction, tells subscribers once it is committed, and then opens
what it gives back. Payloads stay sealed until then.
-/

namespace SalientGraph
namespace Engine

variable (e : Engine)

/-- The row of a node, which must be there. -/
def requireRow (tenant : Tenant) (id : String) : TxAction SealedNode := do
  match ← TxAction.step (TxAction.node? tenant id) with
  | some row => return row
  | none => throw (.notFound ("node " ++ id))

/-- Stages an update of a node, scored for its row, and gives the row after it. -/
def rateNode (tenant : Tenant) (row : SealedNode) (u : RelevanceUpdate) : TxAction SealedNode := do
  let (update, rated) := u.plan row
  if ← TxAction.step (TxAction.updateNode tenant row.id update) then return rated
  else throw (.notFound ("node " ++ row.id))

/-- Boosts a node on behalf of a user. -/
def boostNode (tenant : Tenant) (id : String) : Action OpenNode := do
  let row ← Action.transact .readWrite do
    let row ← requireRow tenant id
    let now ← Action.now
    rateNode tenant row { RelevanceUpdate.unscored now with boost := true }
  Action.announce (.nodeBoosted tenant id)
  Action.ofOutcome (e.openNode tenant row)

/-- Boosts an edge on behalf of a user. -/
def boostEdge (tenant : Tenant) (key : EdgeKey) : Action OpenEdge := do
  let row ← Action.transact .readWrite do
    match ← TxAction.step (TxAction.edge? tenant key) with
    | none => throw (.notFound ("edge " ++ key.text))
    | some row =>
      let now ← Action.now
      let u := { RelevanceUpdate.unscored now with boost := true }
      let (update, rated) := u.plan row
      if ← TxAction.step (TxAction.updateEdge tenant key update) then return rated
      else throw (.notFound ("edge " ++ key.text))
  Action.announce (.edgeBoosted tenant key)
  Action.ofOutcome (e.openEdge tenant row)

/-- Stages that a node is superseded by another one, and rates both. -/
def succeed (tenant : Tenant) (old new : String) : TxAction SealedNode := do
  let oldRow ← requireRow tenant old
  let newRow ← requireRow tenant new
  let now ← Action.now
  let u := RelevanceUpdate.unscored now
  let rated ← rateNode tenant oldRow { u with supersededBy := some new }
  let _ ← rateNode tenant newRow u
  return rated

/-- Marks a node as superseded by another one. -/
def supersedeNode (tenant : Tenant) (old new : String) : Action OpenNode := do
  if old = new then throw (.invalidArgument ("node " ++ old ++ " cannot supersede itself"))
  else
    let row ← Action.transact .readWrite (succeed tenant old new)
    Action.announce (.nodeSuperseded tenant old new)
    Action.ofOutcome (e.openNode tenant row)

/-- Stages one access to each of the given nodes, as far as they are there. -/
def count (tenant : Tenant) (ids : List String) : TxAction (List SealedNode) := do
  let rows ← TxAction.step (TxAction.nodes tenant ids ids.length)
  let now ← Action.now
  rows.mapM fun row =>
    rateNode tenant row { RelevanceUpdate.unscored now with accessedAt := some now }

/-- Counts one access to each of the given nodes, as far as they are there. -/
def recordAccess (tenant : Tenant) (ids : List String) : Action (List OpenNode) := do
  let ids := distinct ids
  if ids.isEmpty then return []
  else
    let rows ← Action.transact .readWrite (count tenant ids)
    if !rows.isEmpty then Action.announce (.nodesAccessed tenant (rows.map (·.id)))
    Action.ofOutcome (e.openNodes tenant rows)

end Engine
end SalientGraph
