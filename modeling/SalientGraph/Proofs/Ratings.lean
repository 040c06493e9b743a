import SalientGraph.Proofs.Calls
import SalientGraph.Proofs.Store.Pages
import SalientGraph.Proofs.Store.Transactions

/-!
# Ratings

Salience is written along with what it is computed from, in updates that are scored for
a row as it was found. A rating is such an update of a node. Several ratings of
different nodes do not get in each other's way: each node becomes what was planned for
it, and everything else stays as it is.
-/

namespace SalientGraph

namespace RelevanceUpdate

/-- A boost by a user. -/
def ofBoost (now : Timestamp) : RelevanceUpdate :=
  { unscored now with boost := true }

/-- A successor. -/
def ofSuccessor (now : Timestamp) (successor : String) : RelevanceUpdate :=
  { unscored now with supersededBy := some successor }

/-- An access. -/
def ofAccess (now : Timestamp) : RelevanceUpdate :=
  { unscored now with accessedAt := some now }

end RelevanceUpdate

/-- A node as it was found, and an update that is to be scored for it. -/
structure Rating where
  row : SealedNode
  update : RelevanceUpdate

namespace Rating

/-- The node after the update. -/
def rated (r : Rating) : SealedNode :=
  (r.update.plan r.row).2

/-- The update, scored and written. -/
def write (r : Rating) : Write :=
  .updateNode r.row.id (r.update.plan r.row).1

@[simp] theorem edges_applyTo_write (r : Rating) (t : Tables) :
    (r.write.applyTo t).edges = t.edges := rfl

theorem getElem?_applyTo_write_self {r : Rating} {t : Tables}
    (h : t.nodes[r.row.id]? = some r.row) :
    (r.write.applyTo t).nodes[r.row.id]? = some r.rated := by
  show (t.nodes.modify r.row.id _)[r.row.id]? = _
  rw [Std.ExtTreeMap.getElem?_modify_self, h]
  rfl

theorem getElem?_applyTo_write_of_ne {r : Rating} {t : Tables} {id : String} (h : r.row.id ≠ id) :
    (r.write.applyTo t).nodes[id]? = t.nodes[id]? := by
  have hid : ¬ compare r.row.id id = .eq := fun heq => h (Std.LawfulEqOrd.eq_of_compare heq)
  show (t.nodes.modify r.row.id _)[id]? = _
  rw [Std.ExtTreeMap.getElem?_modify, if_neg hid]

/-- The ratings are for different nodes, each of them as it is in the tables. -/
structure Fit (t : Tables) (rs : List Rating) : Prop where
  found : ∀ r ∈ rs, t.nodes[r.row.id]? = some r.row
  distinct : rs.Pairwise fun a b => a.row.id ≠ b.row.id

theorem fit_nil (t : Tables) : Fit t [] :=
  ⟨fun _ h => (List.not_mem_nil h).elim, .nil⟩

theorem Fit.sublist {t : Tables} {rs rs' : List Rating} (h : Fit t rs') (hsub : rs.Sublist rs') :
    Fit t rs :=
  ⟨fun r hr => h.found r (hsub.subset hr), h.distinct.sublist hsub⟩

/-- Once a node has been rated, the others are still as they were. -/
theorem Fit.tail {t : Tables} {r : Rating} {rs : List Rating} (h : Fit t (r :: rs)) :
    Fit (r.write.applyTo t) rs := by
  obtain ⟨hne, hdistinct⟩ := List.pairwise_cons.1 h.distinct
  refine ⟨?_, hdistinct⟩
  intro other hother
  rw [getElem?_applyTo_write_of_ne (hne other hother)]
  exact h.found other (List.mem_cons_of_mem r hother)

end Rating

namespace Write

/-- The tables after several writes, one after another. -/
def applyEach (ws : List Write) (t : Tables) : Tables :=
  ws.foldl (fun t w => w.applyTo t) t

@[simp] theorem applyEach_cons (w : Write) (ws : List Write) (t : Tables) :
    applyEach (w :: ws) t = applyEach ws (w.applyTo t) := rfl

/-- The graphs of all tenants after several writes for one of them. -/
def applyEachAt (ws : List Write) (tenant : Tenant) (graphs : Tenant → Tables) : Tenant → Tables :=
  ws.foldl (fun graphs w => w.applyAt tenant graphs) graphs

theorem applyEachAt_append (ws vs : List Write) (tenant : Tenant) (graphs : Tenant → Tables) :
    applyEachAt (ws ++ vs) tenant graphs = applyEachAt vs tenant (applyEachAt ws tenant graphs) :=
  List.foldl_append

@[simp] theorem applyEachAt_self (ws : List Write) (tenant : Tenant) :
    ∀ graphs : Tenant → Tables,
      applyEachAt ws tenant graphs tenant = applyEach ws (graphs tenant) := by
  induction ws with
  | nil => exact fun _ => rfl
  | cons w ws ih =>
      intro graphs
      show applyEachAt ws tenant (w.applyAt tenant graphs) tenant = _
      rw [ih, applyAt_self]
      rfl

theorem applyEachAt_of_ne (ws : List Write) {tenant other : Tenant} (h : other ≠ tenant) :
    ∀ graphs : Tenant → Tables, applyEachAt ws tenant graphs other = graphs other := by
  induction ws with
  | nil => exact fun _ => rfl
  | cons w ws ih =>
      intro graphs
      show applyEachAt ws tenant (w.applyAt tenant graphs) other = _
      rw [ih, applyAt, if_neg h]

end Write

namespace Rating

/-- A node that is not rated stays as it is. -/
theorem getElem?_applyEach_of_ne {rs : List Rating} {id : String} (h : ∀ r ∈ rs, r.row.id ≠ id) :
    ∀ t : Tables, (Write.applyEach (rs.map write) t).nodes[id]? = t.nodes[id]? := by
  induction rs with
  | nil => exact fun _ => rfl
  | cons r rs ih =>
      intro t
      obtain ⟨hr, hrs⟩ := List.forall_mem_cons.1 h
      rw [List.map_cons, Write.applyEach_cons, ih hrs, getElem?_applyTo_write_of_ne hr]

/-- Each node becomes what was planned for it. -/
theorem Fit.getElem?_applyEach {rs : List Rating} :
    ∀ {t : Tables}, Fit t rs → ∀ r ∈ rs,
      (Write.applyEach (rs.map write) t).nodes[r.row.id]? = some r.rated := by
  induction rs with
  | nil =>
      intro t _ r hr
      exact (List.not_mem_nil hr).elim
  | cons first rs ih =>
      intro t h r hr
      rw [List.map_cons, Write.applyEach_cons]
      rcases List.mem_cons.1 hr with rfl | hmem
      · -- the ratings to come are for other nodes
        have hne : ∀ other ∈ rs, other.row.id ≠ r.row.id := fun other hother =>
          ((List.pairwise_cons.1 h.distinct).1 other hother).symm
        rw [getElem?_applyEach_of_ne hne]
        exact getElem?_applyTo_write_self (h.found r List.mem_cons_self)
      · exact ih h.tail r hmem

theorem edges_applyEach (rs : List Rating) :
    ∀ t : Tables, (Write.applyEach (rs.map write) t).edges = t.edges := by
  induction rs with
  | nil => exact fun _ => rfl
  | cons r rs ih =>
      intro t
      rw [List.map_cons, Write.applyEach_cons, ih, edges_applyTo_write]

end Rating

/-! ## Stale nodes -/

/-- What is rated anew has its score. -/
theorem Relevance.eq_scoredAt_of_refreshed? {r fresh : Relevance} {now : Timestamp}
    (h : r.refreshed? now = some fresh) : fresh = r.scoredAt now := by
  unfold refreshed? at h
  split at h
  · exact (Option.some.inj h).symm
  · contradiction

/-- Ratings of those of some nodes whose score has changed. -/
def Rating.stale (now : Timestamp) (rows : List SealedNode) : List Rating :=
  (rows.filter fun row => (row.relevance.refreshed? now).isSome).map (⟨·, .unscored now⟩)

theorem Rating.stale_singleton (now : Timestamp) (row : SealedNode) :
    stale now [row] =
      if (row.relevance.refreshed? now).isSome then [⟨row, .unscored now⟩] else [] := by
  unfold stale
  rw [List.filter_cons]
  split <;> rfl

theorem Rating.flatMap_stale (now : Timestamp) (rows : List SealedNode) :
    (rows.flatMap fun row => (stale now [row]).map write) = (stale now rows).map write := by
  induction rows with
  | nil => rfl
  | cons row rows ih =>
      have hcons : stale now (row :: rows) = stale now [row] ++ stale now rows := by
        unfold stale
        rw [← List.map_append, ← List.filter_append, List.singleton_append]
      rw [List.flatMap_cons, ih, hcons, List.map_append]

/-- Whether or not a node is stale, the others are still as they were once it has been looked at. -/
theorem Rating.Fit.tail_of_stale {t : Tables} {now : Timestamp} {row : SealedNode}
    {rest : List SealedNode} (h : Fit t ((row :: rest).map (⟨·, .unscored now⟩))) :
    Fit (Write.applyEach ((stale now [row]).map write) t) (rest.map (⟨·, .unscored now⟩)) := by
  rw [stale_singleton]
  split
  · exact h.tail
  · exact ⟨fun r hr => h.found r (List.mem_cons_of_mem _ hr), (List.pairwise_cons.1 h.distinct).2⟩

/-! ## The ratings of a call -/

namespace Call

/-- The nodes that a call rates at `now` in the graph of its tenant. -/
def ratings (now : Timestamp) (t : Tables) : Call → List Rating
  | .boostNode id => (t.nodes[id]?).toList.map (⟨·, .ofBoost now⟩)
  | .supersedeNode old new =>
    if old = new then []
    else
      (t.nodes[old]?).toList.map (⟨·, .ofSuccessor now new⟩) ++
        (t.nodes[new]?).toList.map (⟨·, .unscored now⟩)
  | .recordAccess ids => ((distinct ids).filterMap (t.nodes[·]?)).map (⟨·, .ofAccess now⟩)
  | _ => []

/-- The updates that a call makes at `now` in the graph of its tenant. -/
def updates (now : Timestamp) (t : Tables) : Call → List Write
  | .boostEdge key =>
    (t.edges[key]?).toList.map fun row =>
      .updateEdge key ((RelevanceUpdate.ofBoost now).plan row).1
  | call => (call.ratings now t).map Rating.write

variable {now : Timestamp} {t : Tables}

theorem ratings_boostNode {id : String} {row : SealedNode} (h : t.nodes[id]? = some row) :
    (boostNode id).ratings now t = [⟨row, .ofBoost now⟩] := by
  rw [ratings, h]
  rfl

theorem ratings_supersedeNode {old new : String} {oldRow newRow : SealedNode} (hne : old ≠ new)
    (hold : t.nodes[old]? = some oldRow) (hnew : t.nodes[new]? = some newRow) :
    (supersedeNode old new).ratings now t =
      [⟨oldRow, .ofSuccessor now new⟩, ⟨newRow, .unscored now⟩] := by
  rw [ratings, if_neg hne, hold, hnew]
  rfl

end Call

/-- As many nodes as there are identifiers are never too many. -/
theorem View.nodesOf_distinct (v : View) (ids : List String) :
    v.nodesOf (distinct ids) (distinct ids).length = (distinct ids).filterMap v.node? := by
  rw [nodesOf, distinct_of_nodup (nodup_distinct ids)]
  exact List.take_of_length_le (List.length_filterMap_le _ _)

namespace Tables.WellKeyed

variable {t : Tables} (ht : t.WellKeyed)
include ht

theorem fit_toList (id : String) (u : RelevanceUpdate) :
    Rating.Fit t ((t.nodes[id]?).toList.map (⟨·, u⟩)) := by
  cases hrow : t.nodes[id]? with
  | none => exact Rating.fit_nil t
  | some row =>
      refine ⟨?_, List.pairwise_singleton _ _⟩
      intro r hr
      rw [List.mem_singleton.1 hr]
      show t.nodes[row.id]? = some row
      rw [ht.nodes hrow, hrow]

/-- Nodes that are asked for by different identifiers are different nodes. -/
theorem fit_filterMap {ids : List String} (hids : ids.Nodup) (u : RelevanceUpdate) :
    Rating.Fit t ((ids.filterMap (t.nodes[·]?)).map (⟨·, u⟩)) := by
  constructor
  · intro r hr
    obtain ⟨row, hrow, rfl⟩ := List.mem_map.1 hr
    obtain ⟨id, _, hid⟩ := List.mem_filterMap.1 hrow
    show t.nodes[row.id]? = some row
    rw [ht.nodes hid, hid]
  · rw [List.pairwise_map, List.pairwise_filterMap]
    refine hids.imp ?_
    intro a b hne row hrow other hother heq
    apply hne
    rw [← ht.nodes hrow, ← ht.nodes hother]
    exact heq

/-- The nodes on a page are different nodes. -/
theorem fit_nodesAfter (u : RelevanceUpdate) (cursor : Option String) (limit : Nat) :
    Rating.Fit t ((t.view.nodesAfter cursor limit).map (⟨·, u⟩)) := by
  have hsorted : ((t.view.nodesAfter cursor limit).map Node.id).Pairwise (· < ·) := by
    rw [ht.map_id_nodesAfter]
    exact t.pairwise_keys_nodes.sublist page_sublist
  constructor
  · intro r hr
    obtain ⟨row, hrow, rfl⟩ := List.mem_map.1 hr
    exact ht.found_of_mem_nodesAfter hrow
  · apply List.pairwise_map.2
    apply (List.pairwise_map.1 hsorted).imp
    intro a b hlt heq
    exact String.lt_irrefl b.id (heq ▸ hlt)

theorem fit_stale (now : Timestamp) (cursor : Option String) (limit : Nat) :
    Rating.Fit t (Rating.stale now (t.view.nodesAfter cursor limit)) :=
  (ht.fit_nodesAfter (.unscored now) cursor limit).sublist (List.filter_sublist.map _)

/-- The ratings of a call fit the graph that it finds. -/
theorem fit_ratings (now : Timestamp) (call : Call) : Rating.Fit t (call.ratings now t) := by
  cases call with
  | boostNode id => exact ht.fit_toList id _
  | recordAccess ids => exact ht.fit_filterMap (nodup_distinct ids) _
  | supersedeNode old new =>
      by_cases hsame : old = new
      · rw [Call.ratings, if_pos hsame]
        exact Rating.fit_nil t
      · rw [Call.ratings, if_neg hsame]
        have hold := ht.fit_toList old (.ofSuccessor now new)
        have hnew := ht.fit_toList new (.unscored now)
        refine ⟨?_, List.pairwise_append.2 ⟨hold.distinct, hnew.distinct, ?_⟩⟩
        · intro r hr
          rcases List.mem_append.1 hr with hr | hr
          · exact hold.found r hr
          · exact hnew.found r hr
        · intro a ha b hb heq
          obtain ⟨row, hrow, rfl⟩ := List.mem_map.1 ha
          obtain ⟨other, hother, rfl⟩ := List.mem_map.1 hb
          apply hsame
          rw [← ht.nodes (Option.mem_toList.1 hrow), ← ht.nodes (Option.mem_toList.1 hother)]
          exact heq
  | createNode | createEdge | getNode | getEdge | removeNode | removeEdge | neighbors | traverse
  | context | shortestPath | fullTextSearch | semanticSearch | hybridSearch | boostEdge
  | recalculate => exact Rating.fit_nil t

end Tables.WellKeyed
end SalientGraph
