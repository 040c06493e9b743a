import Std.Data.ExtTreeSet
import SalientGraph.Access
import SalientGraph.Distinct
import SalientGraph.Fault
import SalientGraph.Ranking
import SalientGraph.Store.Staged
import SalientGraph.Tenant

/-!
# The store

Committed tables for each tenant, and transactions on top of them. A transaction sees
the tables as they are at the moment, with its own writes laid over them; the writes
of others show as soon as they are committed. Committing publishes all staged writes
at once.

The functions of this module are pure: they take the store and the transaction and
give them back changed. Reading is gathered in `View`.
-/

namespace SalientGraph

/-- The committed rows of a tenant. -/
structure Tables where
  nodes : Table String SealedNode compare := ∅
  edges : Table EdgeKey SealedEdge EdgeKey.order := ∅
deriving Inhabited

/-- What a transaction has staged for a tenant. -/
structure Changes where
  nodes : Staging String SealedNode compare := ∅
  edges : Staging EdgeKey SealedEdge EdgeKey.order := ∅
deriving Inhabited

namespace Changes

def isEmpty (c : Changes) : Bool :=
  c.nodes.isEmpty && c.edges.isEmpty

/-- The tables after the staged writes. -/
def publish (c : Changes) (t : Tables) : Tables :=
  ⟨c.nodes.publish t.nodes, c.edges.publish t.edges⟩

end Changes

/-- A transaction: its staged writes, by tenant. -/
structure Transaction where
  id : TransactionId
  access : Access
  changes : Std.ExtTreeMap Tenant Changes Tenant.order

namespace Transaction

def changesOf (tx : Transaction) (tenant : Tenant) : Changes :=
  tx.changes.getD tenant {}

/-- Whether nothing has been staged. -/
def isClean (tx : Transaction) : Bool :=
  tx.changes.toList.all fun entry => entry.2.isEmpty

/-- Refuses writes in a transaction for reading. -/
def checkWritable (tx : Transaction) : Except Fault Unit :=
  if tx.access.isWritable then .ok ()
  else .error (.storage ("write attempted in read-only transaction " ++ tx.id.text))

def mapNodes (tx : Transaction) (tenant : Tenant)
    (f : Staging String SealedNode compare → Staging String SealedNode compare) : Transaction :=
  let c := tx.changesOf tenant
  { tx with changes := tx.changes.insert tenant { c with nodes := f c.nodes } }

def mapEdges (tx : Transaction) (tenant : Tenant)
    (f : Staging EdgeKey SealedEdge EdgeKey.order → Staging EdgeKey SealedEdge EdgeKey.order) :
    Transaction :=
  let c := tx.changesOf tenant
  { tx with changes := tx.changes.insert tenant { c with edges := f c.edges } }

def stageNode (tx : Transaction) (tenant : Tenant) (id : String) (s : Staged SealedNode) :
    Transaction :=
  tx.mapNodes tenant (·.insert id s)

def stageEdge (tx : Transaction) (tenant : Tenant) (key : EdgeKey) (s : Staged SealedEdge) :
    Transaction :=
  tx.mapEdges tenant (·.insert key s)

end Transaction

/-- The graph of a tenant as a transaction sees it. -/
structure View where
  tables : Tables
  changes : Changes

namespace View

def node? (v : View) (id : String) : Option SealedNode :=
  v.changes.nodes.find? v.tables.nodes id

def edge? (v : View) (key : EdgeKey) : Option SealedEdge :=
  v.changes.edges.find? v.tables.edges key

/-- All nodes: those that the transaction has left alone, then those that it has written. -/
def nodes (v : View) : List SealedNode :=
  v.changes.nodes.rows v.tables.nodes

/-- All edges: those that the transaction has left alone, then those that it has written. -/
def edges (v : View) : List SealedEdge :=
  v.changes.edges.rows v.tables.edges

/-- The first `limit` edges that pass `keep`. -/
def scanEdges (v : View) (limit : Nat) (keep : SealedEdge → Bool) : List SealedEdge :=
  v.changes.edges.scan v.tables.edges limit keep

/-- The nodes with the given identifiers, as far as there are any, each once and `limit` at most. -/
def nodesOf (v : View) (ids : List String) (limit : Nat) : List SealedNode :=
  ((distinct ids).filterMap v.node?).take limit

/-- The first `limit` nodes after a cursor in the order of their identifiers. -/
def nodesAfter (v : View) (cursor : Option String) (limit : Nat) : List SealedNode :=
  best (fun a b => compare a.id b.id) limit
    (v.nodes.filter fun n => cursor.all fun c => c < n.id)

def edgesFrom (v : View) (source : String) (limit : Nat) : List SealedEdge :=
  v.scanEdges limit fun e => e.source == source

def edgesTo (v : View) (target : String) (limit : Nat) : List SealedEdge :=
  v.scanEdges limit fun e => e.target == target

/-- The ends of edges that touch a set of nodes: of `limit` edges at most that leave it, then of
`limit` at most that lead into it. -/
def pairsTouching (v : View) (ids : List String) (limit : Nat) : List (String × String) :=
  let inside := Std.ExtTreeSet.ofList ids compare
  let outgoing := v.scanEdges limit fun e => inside.contains e.source
  let incoming := v.scanEdges limit fun e => inside.contains e.target
  (outgoing ++ incoming).map fun e => (e.source, e.target)

/-- The first `limit` edges with both ends in a set of nodes. -/
def edgesWithin (v : View) (ids : List String) (limit : Nat) : List SealedEdge :=
  let inside := Std.ExtTreeSet.ofList ids compare
  v.scanEdges limit fun e => inside.contains e.source && inside.contains e.target

/-! ### What a scan finds -/

section
variable {v : View} {limit : Nat} {keep : SealedEdge → Bool}

theorem scanEdges_eq_take (v : View) (limit : Nat) (keep : SealedEdge → Bool) :
    v.scanEdges limit keep = (v.edges.filter keep).take limit :=
  v.changes.edges.scan_eq_take v.tables.edges limit keep

theorem mem_edges_of_mem_scanEdges {row : SealedEdge} (h : row ∈ v.scanEdges limit keep) :
    row ∈ v.edges ∧ keep row = true := by
  rw [scanEdges_eq_take] at h
  exact List.mem_filter.1 (List.mem_of_mem_take h)

theorem length_scanEdges (v : View) (limit : Nat) (keep : SealedEdge → Bool) :
    (v.scanEdges limit keep).length = min limit (v.edges.countP keep) := by
  rw [scanEdges_eq_take, List.length_take, List.countP_eq_length_filter]

theorem length_scanEdges_le (v : View) (limit : Nat) (keep : SealedEdge → Bool) :
    (v.scanEdges limit keep).length ≤ limit := by
  rw [length_scanEdges]
  exact Nat.min_le_left _ _

/-- A scan whose limit leaves no edge out finds all of them. -/
theorem scanEdges_eq_filter (h : v.edges.countP keep ≤ limit) :
    v.scanEdges limit keep = v.edges.filter keep := by
  rw [List.countP_eq_length_filter] at h
  rw [scanEdges_eq_take, List.take_of_length_le h]

/-- A scan that is not full has come to the end of the edges. -/
theorem scanEdges_of_length_lt (h : (v.scanEdges limit keep).length < limit) :
    v.scanEdges limit keep = v.edges.filter keep := by
  rw [length_scanEdges] at h
  exact scanEdges_eq_filter (by omega)

end

end View

structure Store where
  tables : Std.ExtTreeMap Tenant Tables Tenant.order := ∅
  /-- The number of transactions begun. -/
  begun : Nat := 0
  /-- The number of transactions that have published a write. -/
  commits : Nat := 0
  /-- The number of requests for the edges that touch a set of nodes. -/
  expansions : Nat := 0
  /-- Whether nodes can be ranked by their embeddings at present. -/
  vectorOnline : Bool := true

namespace Store

def tablesOf (s : Store) (tenant : Tenant) : Tables :=
  s.tables.getD tenant {}

/-- The number of committed nodes of a tenant. -/
def nodeCount (s : Store) (tenant : Tenant) : Nat :=
  (s.tablesOf tenant).nodes.size

/-- The number of committed edges of a tenant. -/
def edgeCount (s : Store) (tenant : Tenant) : Nat :=
  (s.tablesOf tenant).edges.size

/-- The graph of a tenant as a transaction sees it. -/
def view (s : Store) (tx : Transaction) (tenant : Tenant) : View :=
  ⟨s.tablesOf tenant, tx.changesOf tenant⟩

/-- Begins a transaction with nothing staged. -/
def begin (s : Store) (access : Access) : Transaction × Store :=
  (⟨⟨s.begun + 1⟩, access, ∅⟩, { s with begun := s.begun + 1 })

/-- Publishes what a transaction has staged. -/
def commit (s : Store) (tx : Transaction) : Store :=
  if tx.isClean then s
  else
    { s with
      tables := tx.changes.toList.foldl
        (fun tables entry =>
          tables.insert entry.1 (entry.2.publish (tables.getD entry.1 {}))) s.tables
      commits := s.commits + 1 }

/-! ## Writing -/

/-- Stages a node, new or in place of another one. -/
def putNode (tx : Transaction) (tenant : Tenant) (row : SealedNode) : Except Fault Transaction := do
  tx.checkWritable
  return tx.stageNode tenant row.id (.put row)

/-- Stages the removal of a node, if there is one. Its edges are left alone. -/
def deleteNode (s : Store) (tx : Transaction) (tenant : Tenant) (id : String) :
    Except Fault (Bool × Transaction) := do
  tx.checkWritable
  if ((s.view tx tenant).node? id).isSome then return (true, tx.stageNode tenant id .delete)
  else return (false, tx)

/-- Stages an update of a node, if there is one. -/
def updateNode (s : Store) (tx : Transaction) (tenant : Tenant) (id : String)
    (u : RelevanceUpdate) : Except Fault (Bool × Transaction) := do
  tx.checkWritable
  if ((s.view tx tenant).node? id).isSome then
    return (true, tx.mapNodes tenant (·.stageUpdate id u))
  else return (false, tx)

/-- Stages an edge, new or in place of another one. Its ends are not looked at. -/
def putEdge (tx : Transaction) (tenant : Tenant) (row : SealedEdge) : Except Fault Transaction := do
  tx.checkWritable
  return tx.stageEdge tenant row.key (.put row)

/-- Stages the removal of an edge, if there is one. -/
def deleteEdge (s : Store) (tx : Transaction) (tenant : Tenant) (key : EdgeKey) :
    Except Fault (Bool × Transaction) := do
  tx.checkWritable
  if ((s.view tx tenant).edge? key).isSome then return (true, tx.stageEdge tenant key .delete)
  else return (false, tx)

/-- Stages an update of an edge, if there is one. -/
def updateEdge (s : Store) (tx : Transaction) (tenant : Tenant) (key : EdgeKey)
    (u : RelevanceUpdate) : Except Fault (Bool × Transaction) := do
  tx.checkWritable
  if ((s.view tx tenant).edge? key).isSome then
    return (true, tx.mapEdges tenant (·.stageUpdate key u))
  else return (false, tx)

/-- Stages the removal of all edges that touch a node and counts them. -/
def deleteEdgesTouching (s : Store) (tx : Transaction) (tenant : Tenant) (id : String) :
    Except Fault (Nat × Transaction) := do
  tx.checkWritable
  let doomed := (s.view tx tenant).edges.filter (·.touches id)
  return (doomed.length, doomed.foldl (fun tx e => tx.stageEdge tenant e.key .delete) tx)

/-- A commit of nothing changes nothing. -/
theorem commit_of_isClean {s : Store} {tx : Transaction} (h : tx.isClean = true) :
    s.commit tx = s := by
  simp [commit, h]

/-- What was just begun sees the committed tables as they are. -/
@[simp] theorem view_begin (s : Store) (access : Access) (tenant : Tenant) :
    (s.begin access).2.view (s.begin access).1 tenant = ⟨s.tablesOf tenant, {}⟩ := by
  simp [begin, view, tablesOf, Transaction.changesOf]

end Store
end SalientGraph
