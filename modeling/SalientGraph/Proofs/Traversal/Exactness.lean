import SalientGraph.Proofs.Rereading
import SalientGraph.Proofs.Store.Reached
import SalientGraph.Proofs.Traversal.Completeness
import SalientGraph.Proofs.Traversal.Spans

/-!
# Traversals that are not truncated are exact

A traversal that does not say that it is truncated has found everything within its hops
and nothing else, if no edge dangles: the nodes by their distance from the root, and all
edges among them. While no request fails and all payloads can be opened, a traversal
that is not cut short is answered.
-/

namespace SalientGraph

/-- The ends of all edges are stored. -/
def Tables.Closed (t : Tables) : Prop :=
  ∀ key ∈ t.edges, key.source ∈ t.nodes ∧ key.target ∈ t.nodes

/-- A subgraph has all nodes within so many hops from the root, each once, the root first and the
nearer ones before those farther away, and all edges among them if there are any hops. -/
structure Subgraph.Exact (t : Tables) (root : String) (hops : Nat) (found : Subgraph) : Prop where
  first : found.ids.head? = some root
  nodup : found.ids.Nodup
  nodes : ∀ id, id ∈ found.ids ↔ Reaches t.Joins root hops id
  nearer : found.ids.Pairwise (Nearer t.Joins root)
  edges : found.edges.map Edge.key = if hops = 0 then [] else
    t.edges.keys.filter fun key => key.source ∈ found.ids ∧ key.target ∈ found.ids

namespace Tables

variable {t : Tables}

theorem Closed.mem_of_joins (h : t.Closed) {a b : String} (hjoins : t.Joins a b) : b ∈ t.nodes := by
  obtain ⟨relation, hforth | hback⟩ := hjoins
  · exact (h _ hforth).2
  · exact (h _ hback).1

/-- Where all nodes and all edges are listed, it is enough to look at the ends on the lists. -/
theorem closed_of_keys {ids : List String} {keys : List EdgeKey} (hids : t.nodes.keys = ids)
    (hkeys : t.edges.keys = keys) (hends : ∀ key ∈ keys, key.source ∈ ids ∧ key.target ∈ ids) :
    t.Closed := by
  intro key hkey
  rw [← Std.ExtTreeMap.mem_keys, hkeys] at hkey
  rw [← Std.ExtTreeMap.mem_keys, ← Std.ExtTreeMap.mem_keys, hids]
  exact hends key hkey

/-- Whatever is reached from a node is a node. -/
theorem Closed.mem_of_reaches (h : t.Closed) {root : String} (hroot : root ∈ t.nodes) {hops : Nat}
    {id : String} (hreach : Reaches t.Joins root hops id) : id ∈ t.nodes := by
  cases hreach with
  | root => exact hroot
  | step _ hjoins => exact h.mem_of_joins hjoins

namespace WellKeyed

variable (ht : t.WellKeyed)
include ht

/-- The listed edges have the keys that they are kept under. -/
theorem map_key_edges : t.view.edges.map Edge.key = t.edges.keys := by
  have hkeys : ∀ entry ∈ t.edges.toList, entry.2.key = entry.1 := by
    intro entry hentry
    exact ht.edges (Std.ExtTreeMap.mem_toList_iff_getElem?_eq_some.1 hentry)
  have hedges : t.view.edges = t.edges.toList.map (·.2) := Staging.rows_empty t.edges
  rw [hedges, List.map_map, ← Std.ExtTreeMap.map_fst_toList_eq_keys]
  exact List.map_congr_left hkeys

/-- Edges that are told by their keys are listed in the order of their keys, as far as there is
room. -/
theorem map_key_scanEdges (told : EdgeKey → Bool) (limit : Nat) :
    (t.view.scanEdges limit fun row => told row.key).map Edge.key =
      (t.edges.keys.filter told).take limit := by
  rw [View.scanEdges_eq_take, List.map_take, ← ht.map_key_edges, List.filter_map]
  rfl

/-- Unless there are too many of them, these are all edges among some nodes. -/
theorem map_key_edgesWithin {ids : List String} {limit : Nat}
    (h : (t.view.edgesWithin ids limit).length < limit) :
    (t.view.edgesWithin ids limit).map Edge.key =
      t.edges.keys.filter fun key => key.source ∈ ids ∧ key.target ∈ ids := by
  have hall : t.view.edgesWithin ids limit = t.view.edges.filter (View.joinsWithin ids) :=
    View.scanEdges_of_length_lt h
  rw [hall, ← ht.map_key_edges, List.filter_map]
  congr 1
  apply List.filter_congr
  intro row _
  rw [Bool.eq_iff_iff, View.joinsWithin_iff]
  exact decide_eq_true_iff.symm

end WellKeyed
end Tables

namespace Engine

variable (e : Engine) {tenant : Tenant} {t : Tables}

/-! ## What is found -/

/-- The nodes and the edges of a subgraph are the stored ones, opened. -/
structure Opens (tenant : Tenant) (v : View) (found : Subgraph) : Prop where
  nodes : ∀ node ∈ found.nodes, e.nodeIn tenant v node.id = .ok node
  edges : ∀ edge ∈ found.edges, e.edgeIn tenant v edge.key = .ok edge

/-- What is found without any hops. -/
theorem exact_single (t : Tables) (node : OpenNode) :
    Subgraph.Exact t node.id 0 ⟨[node], [], false⟩ where
  first := rfl
  nodup := List.pairwise_singleton _ _
  nodes id := by
    show id ∈ [node.id] ↔ _
    rw [List.mem_singleton]
    constructor
    · rintro rfl
      exact .root 0
    · intro hreach
      cases hreach
      rfl
  nearer := List.pairwise_singleton _ _
  edges := rfl

/-- A complete expansion that is not cut off any more is exact. -/
theorem exact_of_inducedIn (ht : t.WellKeyed) (hclosed : t.Closed) {root : String}
    (hroot : root ∈ t.nodes) {cap hops : Nat} (hhops : hops ≠ 0) {x : Expansion}
    (hrooted : x.Rooted t.Joins root cap hops) (hcomplete : x.Complete t.Joins root hops)
    (hfetched : x.order.length ≤ e.config.traversal.maxNodeFetch) {found : Subgraph}
    (h : e.inducedIn tenant t.view x = .ok found)
    (hlisted : found.edges.length < e.config.traversal.maxSubgraphEdges) :
    found.Exact t root hops := by
  obtain ⟨nodes, hnodes, h⟩ := exists_of_bind_eq_ok_except h
  obtain ⟨edges, hedges, h⟩ := exists_of_bind_eq_ok_except h
  cases h
  rw [List.take_of_length_le hfetched] at hnodes hedges
  have hstored : x.order.filter t.nodes.contains = x.order :=
    List.filter_eq_self.2 fun id hid => hclosed.mem_of_reaches hroot (hrooted.near id hid)
  have hids (cut : Bool) : Subgraph.ids ⟨nodes, edges, cut⟩ = x.order :=
    (e.ids_of_nodesIn ht hrooted.nodup hnodes).trans hstored
  refine ⟨?_, ?_, ?_, ?_, ?_⟩
  · rw [hids]
    exact hrooted.first
  · rw [hids]
    exact hrooted.nodup
  · intro id
    rw [hids]
    exact ⟨hrooted.near id, hcomplete.visited id⟩
  · rw [hids]
    exact hcomplete.nearer
  · rw [hids, if_neg hhops]
    show edges.map Edge.key = _
    rw [e.keys_of_openEdges hedges]
    exact ht.map_key_edgesWithin ((e.length_of_openEdges hedges).symm.trans_lt hlisted)

/-- A subgraph is not truncated only if its expansion is not and none of the limits is reached. -/
theorem limits_of_inducedIn {v : View} {x : Expansion} {found : Subgraph}
    (h : e.inducedIn tenant v x = .ok found) (huncut : found.truncated = false) :
    x.truncated = false ∧ x.order.length ≤ e.config.traversal.maxNodeFetch ∧
      found.edges.length < e.config.traversal.maxSubgraphEdges := by
  obtain ⟨nodes, _, h⟩ := exists_of_bind_eq_ok_except h
  obtain ⟨edges, _, h⟩ := exists_of_bind_eq_ok_except h
  cases h
  obtain ⟨hbefore, hlisted⟩ := Bool.or_eq_false_iff.1 huncut
  obtain ⟨hexpanded, hfetched⟩ := Bool.or_eq_false_iff.1 hbefore
  exact ⟨hexpanded, Nat.le_of_not_lt (of_decide_eq_false hfetched),
    Nat.lt_of_not_le (of_decide_eq_false hlisted)⟩

/-- The expansion of a traversal in a graph. -/
def expansionIn (v : View) (root : String) (hops : Nat) : Expansion :=
  v.expand e.config.traversal (min hops e.config.traversal.maxHops) (.ofRoot root)

/-- A traversal that no limit hinders is exact. -/
theorem exact_of_unhindered (ht : t.WellKeyed) (hclosed : t.Closed) (hvalid : e.config.IsValid)
    {root : String} {hops : Nat} {found : Subgraph}
    (h : e.subgraphIn tenant t.view root hops = .ok found)
    (hlimits : e.inducedIn tenant t.view (e.expansionIn t.view root hops) = .ok found →
      t.view.Unhindered e.config.traversal (min hops e.config.traversal.maxHops) (.ofRoot root) ∧
        (e.expansionIn t.view root hops).order.length ≤ e.config.traversal.maxNodeFetch ∧
        found.edges.length < e.config.traversal.maxSubgraphEdges) :
    found.Exact t root (min hops e.config.traversal.maxHops) := by
  obtain ⟨node, hnode, h⟩ := exists_of_bind_eq_ok_except h
  obtain ⟨rfl, hroot⟩ := e.mem_of_nodeIn ht hnode
  split at h
  · rename_i hzero
    cases h
    rw [hzero]
    exact exact_single t node
  · rename_i hhops
    obtain ⟨hunhindered, hfetched, hlisted⟩ := hlimits h
    have hstart := Expansion.rooted_ofRoot t.Joins node.id hvalid.maxVisited_pos
    have hrooted := ht.rooted_expand e.config.traversal
      (min hops e.config.traversal.maxHops) hstart
    have hcomplete := ht.complete_expand e.config.traversal
      (min hops e.config.traversal.maxHops) hstart (Expansion.complete_ofRoot t.Joins node.id)
      hunhindered
    rw [Nat.zero_add] at hrooted hcomplete
    exact e.exact_of_inducedIn ht hclosed hroot hhops hrooted hcomplete hfetched h hlisted

theorem exact_of_subgraphIn (ht : t.WellKeyed) (hclosed : t.Closed) (hvalid : e.config.IsValid)
    {root : String} {hops : Nat} {found : Subgraph}
    (h : e.subgraphIn tenant t.view root hops = .ok found) (huncut : found.truncated = false) :
    found.Exact t root (min hops e.config.traversal.maxHops) := by
  apply e.exact_of_unhindered ht hclosed hvalid h
  intro hinduced
  obtain ⟨hexpanded, hfetched, hlisted⟩ := e.limits_of_inducedIn hinduced huncut
  exact ⟨View.unhindered_of_not_truncated _ hexpanded, hfetched, hlisted⟩

/-- Nodes that are opened together are opened one by one. -/
theorem nodeIn_of_mem_nodesIn (ht : t.WellKeyed) {ids : List String} {nodes : List OpenNode}
    (h : e.nodesIn tenant t.view ids = .ok nodes) :
    ∀ node ∈ nodes, e.nodeIn tenant t.view node.id = .ok node := by
  intro node hnode
  obtain ⟨row, hrow, hopen⟩ := exists_of_mem_mapM_eq_ok h node hnode
  obtain ⟨id, _, hfound⟩ := List.mem_filterMap.1 (List.mem_of_mem_take hrow)
  -- a row is kept under its own identifier, so it is found again by what is opened
  have hkept : row.id = id := ht.nodes ((View.node?_view t id).symm.trans hfound)
  rw [e.id_of_openNode hopen, hkept, nodeIn, hfound]
  exact hopen

/-- Edges that are opened together are opened one by one. -/
theorem edgeIn_of_mem_openEdges (ht : t.WellKeyed) {limit : Nat} {keep : SealedEdge → Bool}
    {edges : List OpenEdge} (h : e.openEdges tenant (t.view.scanEdges limit keep) = .ok edges) :
    ∀ edge ∈ edges, e.edgeIn tenant t.view edge.key = .ok edge := by
  intro edge hedge
  obtain ⟨row, hrow, hopen⟩ := exists_of_mem_mapM_eq_ok h edge hedge
  obtain ⟨key, hfound⟩ := View.mem_edges.1 (View.mem_edges_of_mem_scanEdges hrow).1
  have hkept : row.key = key := ht.edges ((View.edge?_view t key).symm.trans hfound)
  rw [e.key_of_openEdge hopen, hkept, edgeIn, hfound]
  exact hopen

/-- What is opened is found again by its identifier or its key. -/
theorem opens_of_subgraphIn (ht : t.WellKeyed) {root : String} {hops : Nat} {found : Subgraph}
    (h : e.subgraphIn tenant t.view root hops = .ok found) : e.Opens tenant t.view found := by
  obtain ⟨node, hnode, h⟩ := exists_of_bind_eq_ok_except h
  obtain ⟨hid, _⟩ := e.mem_of_nodeIn ht hnode
  split at h
  · cases h
    refine ⟨?_, List.forall_mem_nil _⟩
    intro other hother
    rw [List.mem_singleton.1 hother, hid]
    exact hnode
  · obtain ⟨nodes, hnodes, h⟩ := exists_of_bind_eq_ok_except h
    obtain ⟨edges, hedges, h⟩ := exists_of_bind_eq_ok_except h
    cases h
    exact ⟨e.nodeIn_of_mem_nodesIn ht hnodes, e.edgeIn_of_mem_openEdges ht hedges⟩

/-! ## What is answered in time -/

open TxAction (SettlesIn reading_settlesIn)
open World (Steady placid_steady)

theorem settles_hop (frontier : List String) :
    SettlesIn (Steady tenant t) (e.hop tenant frontier)
      (.ok (t.view.pairsTouching frontier e.config.traversal.perHopEdgeLimit)) := by
  have hcount : Action.SettlesIn (Steady tenant t) Action.countExpansion (.ok ()) :=
    fun _ _ hw => ⟨⟨hw.alone, hw.sound, hw.tables⟩, Nat.le_refl _, fun _ => rfl⟩
  apply SettlesIn.step
  apply (reading_settlesIn (placid_steady tenant t) .pairsTouching
    (·.pairsTouching frontier e.config.traversal.perHopEdgeLimit)).bind
  intro pairs
  exact (SettlesIn.inTransaction hcount).after (.pure pairs)

theorem settles_expand (hops : Nat) :
    ∀ x : Expansion, SettlesIn (Steady tenant t) (e.expand tenant hops x)
      (.ok (t.view.expand e.config.traversal hops x)) := by
  induction hops with
  | zero => exact fun x => .pure x
  | succ hops ih =>
      intro x
      unfold expand View.expand
      dsimp only
      split
      · exact .pure x
      · split
        · exact .pure _
        · apply (e.settles_hop x.frontier).bind
            (k := fun pairs =>
              let grown := x.grow e.config.traversal.maxVisited e.config.traversal.perHopEdgeLimit
                pairs
              .ok (if grown.full = true then grown
                else t.view.expand e.config.traversal hops grown))
          intro pairs
          dsimp only
          split
          · exact .pure _
          · exact ih _

theorem settles_nodesInOrder (ids : List String) :
    SettlesIn (Steady tenant t) (e.nodesInOrder tenant ids) (e.nodesIn tenant t.view ids) :=
  (reading_settlesIn (placid_steady tenant t) .nodes (·.nodesOf ids ids.length)).bind fun rows =>
    SettlesIn.ofOutcome (e.openNodes tenant rows)

theorem settles_edgesWithin (ids : List String) (limit : Nat) :
    SettlesIn (Steady tenant t) (e.edgesWithin tenant ids limit)
      (e.openEdges tenant (t.view.edgesWithin ids limit)) :=
  (reading_settlesIn (placid_steady tenant t) .edgesWithin (·.edgesWithin ids limit)).bind
    fun rows => SettlesIn.ofOutcome (e.openEdges tenant rows)

theorem settles_induced (x : Expansion) :
    SettlesIn (Steady tenant t) (e.induced tenant x) (e.inducedIn tenant t.view x) :=
  (e.settles_nodesInOrder _).step.bind fun _ =>
    (e.settles_edgesWithin _ _).step.bind fun _ => .pure _

/-- In time, a traversal comes to what there is in the graph. -/
theorem settles_traverse (root : String) (hops : Nat) :
    Action.SettlesIn (Steady tenant t) (e.traverse tenant root hops)
      (e.subgraphIn tenant t.view root hops) := by
  apply Action.transact_settlesIn (placid_steady tenant t)
  apply (e.settles_requireNode root).step.bind
  intro node
  split
  · exact .pure _
  · exact (e.settles_expand _ _).bind fun x => e.settles_induced x

/-- All payloads of a graph can be opened. -/
structure CanOpen (tenant : Tenant) (t : Tables) : Prop where
  nodes : ∀ (id : String) (row : SealedNode), t.nodes[id]? = some row →
    ∃ node, e.openNode tenant row = .ok node
  edges : ∀ (key : EdgeKey) (row : SealedEdge), t.edges[key]? = some row →
    ∃ edge, e.openEdge tenant row = .ok edge

/-- Where all payloads are listed, it is enough to open each of them. -/
theorem canOpen_of_isOk (hnodes : ∀ entry ∈ t.nodes.toList, (e.openNode tenant entry.2).isOk = true)
    (hedges : ∀ entry ∈ t.edges.toList, (e.openEdge tenant entry.2).isOk = true) :
    e.CanOpen tenant t where
  nodes := e.exists_openNode_of_isOk hnodes
  edges _ _ hrow :=
    exists_ok_of_isOk (hedges _ (Std.ExtTreeMap.mem_toList_iff_getElem?_eq_some.2 hrow))

theorem exists_nodesIn (hopen : e.CanOpen tenant t) (ids : List String) :
    ∃ nodes, e.nodesIn tenant t.view ids = .ok nodes := by
  apply exists_mapM_eq_ok
  intro row hrow
  obtain ⟨id, _, hfound⟩ := List.mem_filterMap.1 (List.mem_of_mem_take hrow)
  exact hopen.nodes id row ((View.node?_view t id).symm.trans hfound)

theorem exists_openEdges (hopen : e.CanOpen tenant t) (limit : Nat) (keep : SealedEdge → Bool) :
    ∃ edges, e.openEdges tenant (t.view.scanEdges limit keep) = .ok edges := by
  apply exists_mapM_eq_ok
  intro row hrow
  obtain ⟨key, hfound⟩ := View.mem_edges.1 (View.mem_edges_of_mem_scanEdges hrow).1
  exact hopen.edges key row ((View.edge?_view t key).symm.trans hfound)

/-- Where all payloads can be opened, an expansion has an induced subgraph. -/
theorem exists_inducedIn (hopen : e.CanOpen tenant t) (x : Expansion) :
    ∃ found, e.inducedIn tenant t.view x = .ok found := by
  let ids := x.order.take e.config.traversal.maxNodeFetch
  have hnodes := e.exists_nodesIn hopen ids
  have hedges : ∃ edges, e.openEdges tenant
      (t.view.edgesWithin ids e.config.traversal.maxSubgraphEdges) = .ok edges :=
    e.exists_openEdges hopen _ _
  obtain ⟨nodes, hnodes⟩ := hnodes
  obtain ⟨edges, hedges⟩ := hedges
  unfold inducedIn
  dsimp only
  rw [show x.order.take e.config.traversal.maxNodeFetch = ids from rfl, hnodes]
  simp only [hedges, bind, Except.bind]
  exact ⟨_, rfl⟩

theorem exists_nodeIn (hopen : e.CanOpen tenant t) {id : String} (hid : id ∈ t.nodes) :
    ∃ node, e.nodeIn tenant t.view id = .ok node := by
  obtain ⟨row, hrow⟩ := Option.isSome_iff_exists.1 (Std.ExtTreeMap.mem_iff_isSome_getElem?.1 hid)
  obtain ⟨node, hnode⟩ := hopen.nodes id row hrow
  rw [nodeIn, View.node?_view, hrow]
  exact ⟨node, hnode⟩

theorem exists_subgraphIn (hopen : e.CanOpen tenant t) {root : String} (hroot : root ∈ t.nodes)
    (hops : Nat) : ∃ found, e.subgraphIn tenant t.view root hops = .ok found := by
  obtain ⟨node, hstart⟩ := e.exists_nodeIn hopen hroot
  unfold subgraphIn
  simp only [hstart, bind, Except.bind]
  split
  · exact ⟨_, rfl⟩
  · exact e.exists_inducedIn hopen _

/-- While no request fails and all payloads can be opened, a traversal from a node is answered within
every scope that outlasts it. -/
theorem exists_traverse (w : World) (halone : w.conditions.others = [])
    (hsound : ∀ served r, w.conditions.failure served r = none)
    (hopen : e.CanOpen tenant (w.store.tablesOf tenant)) {root : String}
    (hroot : root ∈ (w.store.tablesOf tenant).nodes) (hops : Nat) {scope : Scope}
    (hlasts : scope.Outlasts (e.traverse tenant root hops) w) :
    ∃ found u, e.traverse tenant root hops scope w = .ok found u := by
  obtain ⟨found, hfound⟩ := e.exists_subgraphIn hopen hroot hops
  have hsteady : Steady tenant (w.store.tablesOf tenant) w := ⟨halone, hsound, rfl⟩
  have hsettled := e.settles_traverse root hops scope w hsteady
  obtain ⟨u, hu⟩ := exists_ok_of_outcomeOf ((hsettled.outcome hlasts).trans hfound)
  exact ⟨found, u, hu⟩

/-- Over every committed graph without dangling edges and with every valid configuration: what a
traversal gives back is stored, and unless it says that it is truncated, it is all that there is
within its hops. While no request fails and all payloads can be opened, a traversal from a node is
answered within every scope that outlasts it. -/
theorem untruncated_traversals_are_exact (hvalid : e.config.validate = .ok ()) (w : World)
    (hstore : w.store.Reached) (halone : w.conditions.others = []) (tenant : Tenant)
    (hclosed : (w.store.tablesOf tenant).Closed) (root : String)
    (hroot : root ∈ (w.store.tablesOf tenant).nodes) (hops : Nat) :
    (∀ scope found u, e.traverse tenant root hops scope w = .ok found u →
      e.Opens tenant (w.store.tablesOf tenant).view found ∧
        (found.truncated = false → found.Exact (w.store.tablesOf tenant) root
          (min hops e.config.traversal.maxHops))) ∧
    ((∀ served r, w.conditions.failure served r = none) →
      e.CanOpen tenant (w.store.tablesOf tenant) →
        ∀ scope : Scope, scope.Outlasts (e.traverse tenant root hops) w →
          ∃ found u, e.traverse tenant root hops scope w = .ok found u) := by
  have hconfig := (Config.validate_eq_ok_iff e.config).1 hvalid
  have ht := hstore.wellKeyed tenant
  constructor
  · intro scope found u hrun
    obtain ⟨n, ⟨hfound, _⟩, _⟩ := Action.transact_finds halone (e.finds_subgraph root hops) hrun
    exact ⟨e.opens_of_subgraphIn ht hfound, e.exact_of_subgraphIn ht hclosed hconfig hfound⟩
  · intro hsound hopen scope hlasts
    exact e.exists_traverse w halone hsound hopen hroot hops hlasts

/-- Two edges lead to the second of four nodes, from the first and from the third one, and one leads
from the third to the fourth one. Three nodes are within two hops of the first one, so that the
fourth one is farther away. -/
theorem untruncated_traversals_are_exact_within_two_hops :
    let e : Engine :=
      { nonce := fun _ => [], shuffle := fun _ ids => ids, shuffle_perm := fun _ _ => .refl _ }
    let acme : Tenant := ⟨"acme"⟩
    let node (id : String) : SealedNode := ⟨id, "concept", id, ⟨[0x7b, 0x7d]⟩, none, default⟩
    let edge (a b : String) : SealedEdge := ⟨a, b, "next", 1.0, ⟨[0x7b, 0x7d]⟩, default⟩
    let nodes := ["a", "b", "c", "d"].foldl (fun tx id => tx.stageNode acme id (.put (node id)))
      (Store.begin {} .readWrite).1
    let tx := [edge "a" "b", edge "c" "b", edge "c" "d"].foldl
      (fun tx row => tx.stageEdge acme row.key (.put row)) nodes
    let w : World := { World.start {} default with store := Store.commit {} tx }
    let t := w.store.tablesOf acme
    e.config.validate = .ok () ∧ w.store.Reached ∧ w.conditions.others = [] ∧ t.Closed ∧
      "a" ∈ t.nodes ∧ e.CanOpen acme t ∧
      ∃ found u, e.traverse acme "a" 2 .unbounded w = .ok found u ∧ found.truncated = false ∧
        found.Exact t "a" 2 ∧ found.ids = ["a", "b", "c"] ∧ ¬ Reaches t.Joins "a" 2 "d" := by
  intro e acme node edge nodes tx w t
  have hvalid : e.config.validate = .ok () := by decide +kernel
  have hnodes : nodes.Made :=
    .staged {} (.putNode (node "d")) acme (.staged {} (.putNode (node "c")) acme
      (.staged {} (.putNode (node "b")) acme (.staged {} (.putNode (node "a")) acme
        (.begun {} .readWrite) rfl) rfl) rfl) rfl
  have hmade : tx.Made :=
    .staged {} (.putEdge (edge "c" "d")) acme (.staged {} (.putEdge (edge "c" "b")) acme
      (.staged {} (.putEdge (edge "a" "b")) acme hnodes rfl) rfl) rfl
  have hstore : w.store.Reached := .committed (s := {}) (.empty rfl) hmade rfl
  have hids : t.nodes.keys = ["a", "b", "c", "d"] := by decide +kernel
  have hkeys : t.edges.keys = [⟨"a", "b", "next"⟩, ⟨"c", "b", "next"⟩, ⟨"c", "d", "next"⟩] := by
    decide +kernel
  have hclosed : t.Closed := Tables.closed_of_keys hids hkeys (by decide)
  have hroot : "a" ∈ t.nodes := by
    rw [← Std.ExtTreeMap.mem_keys, hids]
    decide
  have hopen : e.CanOpen acme t := e.canOpen_of_isOk (by decide +kernel) (by decide +kernel)
  have hshape : (answer? (e.traverse acme "a" 2 .unbounded w)).map
      (fun found => (found.ids, found.truncated)) = some (["a", "b", "c"], false) := by
    decide +kernel
  obtain ⟨hexact, hanswered⟩ :=
    untruncated_traversals_are_exact e hvalid w hstore rfl acme hclosed "a" hroot 2
  obtain ⟨found, u, hrun⟩ := hanswered (fun _ _ => rfl) hopen .unbounded (Scope.check_unbounded _)
  rw [hrun] at hshape
  obtain ⟨hfound, huncut⟩ := Prod.mk.inj (Option.some.inj hshape)
  have hwithin : found.Exact t "a" 2 := (hexact .unbounded found u hrun).2 huncut
  refine ⟨hvalid, hstore, rfl, hclosed, hroot, hopen, found, u, hrun, huncut, hwithin, hfound, ?_⟩
  rw [← hwithin.nodes, hfound]
  decide

end Engine
end SalientGraph
