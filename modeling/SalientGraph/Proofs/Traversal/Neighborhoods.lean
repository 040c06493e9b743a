import Mathlib.Data.List.Nodup
import SalientGraph.Proofs.Traversal.Exactness

/-!
# Neighborhoods and single hops

A neighborhood is asked for edge by edge, outgoing and incoming ones apart, and cut off
in either direction. A traversal with one hop is asked for the ends of the edges that
touch its root. Here the neighborhood is told exactly, and as long as nothing is cut off
the two come to the same nodes, whatever edges lead back, run in parallel or come from
the node itself.
-/

namespace SalientGraph

/-! ## First occurrences -/

/-- A list has the elements of another one, each once and in the order in which they first occur
there. -/
structure ListsOnce (all once : List String) : Prop where
  mem_iff : ∀ x, x ∈ once ↔ x ∈ all
  nodup : once.Nodup
  ordered : once.Pairwise fun x y => all.idxOf x < all.idxOf y

theorem idxOf_cons_of_mem {first x : String} {rest once : List String} (hfirst : first ∉ once)
    (hx : x ∈ once) : (first :: rest).idxOf x = rest.idxOf x + 1 := by
  apply List.idxOf_cons_ne
  rintro rfl
  exact hfirst hx

theorem pairwise_idxOf_distinctFrom (all : List String) : ∀ seen : List String,
    (distinctFrom seen all).Pairwise fun x y => all.idxOf x < all.idxOf y := by
  induction all with
  | nil => exact fun _ => .nil
  | cons first rest ih =>
      -- apart from the first element, all occur one place later than in the rest
      have hlater : ∀ seen, first ∉ distinctFrom seen rest →
          (distinctFrom seen rest).Pairwise fun x y =>
            (first :: rest).idxOf x < (first :: rest).idxOf y := by
        intro seen hfirst
        apply (ih seen).imp_of_mem
        intro x y hx hy hless
        rw [idxOf_cons_of_mem hfirst hx, idxOf_cons_of_mem hfirst hy]
        omega
      intro seen
      rw [distinctFrom]
      split
      · rename_i hseen
        apply hlater seen
        intro hmem
        exact ((mem_distinctFrom rest seen).1 hmem).2 (List.contains_iff_mem.1 hseen)
      · have hfirst : first ∉ distinctFrom (first :: seen) rest := fun hmem =>
          ((mem_distinctFrom rest _).1 hmem).2 List.mem_cons_self
        refine List.pairwise_cons.2 ⟨?_, hlater _ hfirst⟩
        intro y hy
        rw [List.idxOf_cons_self, idxOf_cons_of_mem hfirst hy]
        omega

theorem listsOnce_distinct (all : List String) : ListsOnce all (distinct all) where
  mem_iff _ := mem_distinct
  nodup := nodup_distinct all
  ordered := pairwise_idxOf_distinctFrom all []

/-! ## What a neighborhood is made of -/

/-- The end of an edge of a node that is not the node, or the node itself at a loop. -/
def Edge.farEnd (id : String) (edge : OpenEdge) : String :=
  if edge.source = id then edge.target else edge.source

/-- A neighborhood has the first outgoing edges of a node in the order of their keys and then the first
incoming ones, so many of either, and the first of the other nodes at their far ends. -/
structure Neighborhood.Exact (t : Tables) (fetched : Nat) (id : String) (limit : Nat)
    (found : Neighborhood) : Prop where
  node : found.node.id = id
  edges : found.edges.map Edge.key = (t.edges.keys.filter (·.source = id)).take limit ++
    (t.edges.keys.filter (·.target = id)).take limit
  neighbors : ∃ others, ListsOnce ((found.edges.map (·.farEnd id)).filter (· ≠ id)) others ∧
    found.neighbors.map Node.id = others.take fetched

namespace Engine

/-- Among the edges of a node, the other ends are the far ends apart from the node itself. -/
theorem otherEnds_eq {id : String} {edges : List OpenEdge}
    (h : ∀ edge ∈ edges, edge.source = id ∨ edge.target = id) :
    otherEnds id edges = distinct ((edges.map (·.farEnd id)).filter (· ≠ id)) := by
  have hends : edges.filterMap (·.otherEnd? id) = edges.map (·.farEnd id) := by
    rw [← List.filterMap_eq_map]
    apply List.filterMap_congr
    intro edge hedge
    unfold Edge.otherEnd? Edge.farEnd
    rcases h edge hedge with hsource | htarget <;> grind
  rw [otherEnds, hends]
  congr 2
  funext x
  simp [bne, beq_eq_decide]

variable (e : Engine) {tenant : Tenant} {t : Tables}

section

variable (ht : t.WellKeyed) {id : String} {asked : Nat} {found : Neighborhood}
include ht

/-- What is opened of the first edges out of a node. -/
theorem keys_of_edgesFrom {limit : Nat} {edges : List OpenEdge}
    (h : e.openEdges tenant (t.view.edgesFrom id limit) = .ok edges) :
    edges.map Edge.key = (t.edges.keys.filter (·.source = id)).take limit := by
  rw [e.keys_of_openEdges h]
  exact ht.map_key_scanEdges (fun key => key.source = id) limit

theorem keys_of_edgesTo {limit : Nat} {edges : List OpenEdge}
    (h : e.openEdges tenant (t.view.edgesTo id limit) = .ok edges) :
    edges.map Edge.key = (t.edges.keys.filter (·.target = id)).take limit := by
  rw [e.keys_of_openEdges h]
  exact ht.map_key_scanEdges (fun key => key.target = id) limit

omit ht in
/-- Edges that are listed by their keys are edges of the node. -/
theorem touches_of_keys {limit : Nat} {edges : List OpenEdge}
    (h : edges.map Edge.key = (t.edges.keys.filter (·.source = id)).take limit ++
      (t.edges.keys.filter (·.target = id)).take limit) :
    ∀ edge ∈ edges, edge.key ∈ t.edges ∧ (edge.source = id ∨ edge.target = id) := by
  intro edge hedge
  have hlisted : edge.key ∈ edges.map Edge.key := List.mem_map_of_mem hedge
  rw [h, List.mem_append] at hlisted
  rcases hlisted with hout | hin
  · obtain ⟨hkey, hsource⟩ := List.mem_filter.1 (List.mem_of_mem_take hout)
    exact ⟨Std.ExtTreeMap.mem_keys.1 hkey, .inl (of_decide_eq_true hsource)⟩
  · obtain ⟨hkey, htarget⟩ := List.mem_filter.1 (List.mem_of_mem_take hin)
    exact ⟨Std.ExtTreeMap.mem_keys.1 hkey, .inr (of_decide_eq_true htarget)⟩

omit ht in
theorem farEnd_mem_of_closed (hclosed : t.Closed) {edge : OpenEdge} (hedge : edge.key ∈ t.edges) :
    edge.farEnd id ∈ t.nodes := by
  obtain ⟨hsource, htarget⟩ := hclosed edge.key hedge
  unfold Edge.farEnd
  split
  · exact htarget
  · exact hsource

theorem exact_of_neighborhoodIn (hclosed : t.Closed)
    (h : e.neighborhoodIn tenant t.view id asked = .ok found) :
    found.Exact t e.config.traversal.maxNodeFetch id (e.config.traversal.neighborLimit asked) := by
  obtain ⟨node, hnode, h⟩ := exists_of_bind_eq_ok_except h
  obtain ⟨outgoing, houtgoing, h⟩ := exists_of_bind_eq_ok_except h
  obtain ⟨incoming, hincoming, h⟩ := exists_of_bind_eq_ok_except h
  obtain ⟨neighbors, hneighbors, h⟩ := exists_of_bind_eq_ok_except h
  cases h
  let edges := outgoing ++ incoming
  have hkeys : edges.map Edge.key =
      (t.edges.keys.filter (·.source = id)).take (e.config.traversal.neighborLimit asked) ++
        (t.edges.keys.filter (·.target = id)).take (e.config.traversal.neighborLimit asked) := by
    rw [List.map_append, e.keys_of_edgesFrom ht houtgoing, e.keys_of_edgesTo ht hincoming]
  have htouches := touches_of_keys hkeys
  let ends := (edges.map (·.farEnd id)).filter (· ≠ id)
  have honce := listsOnce_distinct ends
  refine ⟨(e.mem_of_nodeIn ht hnode).1, hkeys, distinct ends, honce, ?_⟩
  -- no edge dangles, so that no other end is missing among the nodes that are fetched
  have hstored : ∀ other ∈ (distinct ends).take e.config.traversal.maxNodeFetch,
      t.nodes.contains other = true := by
    intro other hother
    have hmem := (honce.mem_iff other).1 (List.mem_of_mem_take hother)
    obtain ⟨edge, hedge, rfl⟩ := List.mem_map.1 (List.mem_filter.1 hmem).1
    exact farEnd_mem_of_closed hclosed (htouches edge hedge).1
  rw [otherEnds_eq fun edge hedge => (htouches edge hedge).2] at hneighbors
  have hnodup := (List.take_sublist e.config.traversal.maxNodeFetch _).nodup honce.nodup
  rw [← List.filter_eq_self.2 hstored]
  exact e.ids_of_nodesIn ht hnodup hneighbors

/-- What is opened for a neighborhood is found again by its identifier or its key. -/
theorem opens_of_neighborhoodIn (h : e.neighborhoodIn tenant t.view id asked = .ok found) :
    e.Opens tenant t.view ⟨found.node :: found.neighbors, found.edges, false⟩ := by
  obtain ⟨node, hnode, h⟩ := exists_of_bind_eq_ok_except h
  obtain ⟨outgoing, houtgoing, h⟩ := exists_of_bind_eq_ok_except h
  obtain ⟨incoming, hincoming, h⟩ := exists_of_bind_eq_ok_except h
  obtain ⟨neighbors, hneighbors, h⟩ := exists_of_bind_eq_ok_except h
  cases h
  constructor
  · intro other hother
    rcases List.mem_cons.1 hother with rfl | hneighbor
    · rw [(e.mem_of_nodeIn ht hnode).1]
      exact hnode
    · exact e.nodeIn_of_mem_nodesIn ht hneighbors other hneighbor
  · intro edge hedge
    rcases List.mem_append.1 hedge with hout | hin
    · exact e.edgeIn_of_mem_openEdges ht houtgoing edge hout
    · exact e.edgeIn_of_mem_openEdges ht hincoming edge hin

/-! ## The same as a single hop -/

omit ht in
/-- What a single hop comes to is the root and what is joined to it. -/
theorem reaches_one_iff {root other : String} :
    Reaches t.Joins root 1 other ↔ other = root ∨ t.Joins root other := by
  constructor
  · intro hreach
    cases hreach with
    | root => exact .inl rfl
    | step h hjoins =>
        cases h
        exact .inr hjoins
  · rintro (rfl | hjoins)
    · exact .root 1
    · exact .step (.root 0) hjoins

omit ht in
/-- Where no direction is cut off, the far ends are all that is joined to the node. -/
theorem mem_farEnds_iff {fetched limit : Nat} (h : found.Exact t fetched id limit)
    (hout : t.edges.keys.countP (·.source = id) < limit)
    (hin : t.edges.keys.countP (·.target = id) < limit) (other : String) :
    other ∈ found.edges.map (·.farEnd id) ↔ t.Joins id other := by
  have hkeys := h.edges
  rw [List.countP_eq_length_filter] at hout hin
  rw [List.take_of_length_le (Nat.le_of_lt hout), List.take_of_length_le (Nat.le_of_lt hin)] at hkeys
  -- the far end of an edge is told by its key
  have hends : found.edges.map (·.farEnd id) = (found.edges.map Edge.key).map fun key =>
      if key.source = id then key.target else key.source := by
    rw [List.map_map]
    rfl
  rw [hends, hkeys]
  simp only [List.mem_map, List.mem_append, List.mem_filter, Std.ExtTreeMap.mem_keys,
    decide_eq_true_eq]
  constructor
  · rintro ⟨key, ⟨hkey, hsource⟩ | ⟨hkey, htarget⟩, rfl⟩
    · rw [if_pos hsource]
      exact ⟨key.relation, .inl (hsource ▸ hkey)⟩
    · split
      · rename_i hsource
        exact ⟨key.relation, .inl (hsource ▸ hkey)⟩
      · exact ⟨key.relation, .inr (htarget ▸ hkey)⟩
  · rintro ⟨relation, hforth | hback⟩
    · exact ⟨_, .inl ⟨hforth, rfl⟩, if_pos rfl⟩
    · refine ⟨_, .inr ⟨hback, rfl⟩, ?_⟩
      dsimp only
      split
      · rename_i hloop
        exact hloop.symm
      · rfl

end

/-- Nodes that are opened from one graph are the same if their identifiers are. -/
theorem perm_of_opens {v : View} {nodes others : List OpenNode}
    (hnodes : ∀ node ∈ nodes, e.nodeIn tenant v node.id = .ok node)
    (hothers : ∀ node ∈ others, e.nodeIn tenant v node.id = .ok node)
    (hperm : (nodes.map Node.id).Perm (others.map Node.id)) (hnodup : (nodes.map Node.id).Nodup) :
    nodes.Perm others := by
  have hsub : ∀ {xs ys : List OpenNode}, (∀ node ∈ xs, e.nodeIn tenant v node.id = .ok node) →
      (∀ node ∈ ys, e.nodeIn tenant v node.id = .ok node) →
      (xs.map Node.id).Perm (ys.map Node.id) → ∀ node ∈ xs, node ∈ ys := by
    intro xs ys hxs hys hids node hnode
    obtain ⟨other, hother, hid⟩ := List.mem_map.1 (hids.mem_iff.1 (List.mem_map_of_mem hnode))
    have hsame := hys other hother
    rw [hid, hxs node hnode] at hsame
    cases hsame
    exact hother
  apply (List.perm_ext_iff_of_nodup hnodup.of_map (hperm.nodup_iff.1 hnodup).of_map).2
  intro node
  exact ⟨hsub hnodes hothers hperm node, hsub hothers hnodes hperm.symm node⟩

/-- A neighborhood that is cut off in neither direction has the nodes of an exact single hop. -/
theorem perm_of_exact {id : String} {limit : Nat} {found : Neighborhood} {sub : Subgraph}
    (h : found.Exact t e.config.traversal.maxNodeFetch id limit)
    (hopens : e.Opens tenant t.view ⟨found.node :: found.neighbors, found.edges, false⟩)
    (hout : t.edges.keys.countP (·.source = id) < limit)
    (hin : t.edges.keys.countP (·.target = id) < limit) (hsub : sub.Exact t id 1)
    (hsubopens : e.Opens tenant t.view sub)
    (hroom : sub.ids.length ≤ e.config.traversal.maxNodeFetch) :
    (found.node :: found.neighbors).Perm sub.nodes := by
  obtain ⟨others, honce, hneighbors⟩ := h.neighbors
  have hothers : ∀ other, other ∈ others ↔ t.Joins id other ∧ other ≠ id := by
    intro other
    rw [honce.mem_iff, List.mem_filter, mem_farEnds_iff h hout hin, decide_eq_true_eq]
  have hnodup : (id :: others).Nodup :=
    List.nodup_cons.2 ⟨fun hid => ((hothers id).1 hid).2 rfl, honce.nodup⟩
  have hperm : (id :: others).Perm sub.ids := by
    apply (List.perm_ext_iff_of_nodup hnodup hsub.nodup).2
    intro other
    rw [hsub.nodes, reaches_one_iff, List.mem_cons, hothers]
    constructor
    · rintro (rfl | ⟨hjoins, _⟩)
      · exact .inl rfl
      · exact .inr hjoins
    · rintro (rfl | hjoins)
      · exact .inl rfl
      · by_cases hid : other = id
        · exact .inl hid
        · exact .inr ⟨hjoins, hid⟩
  -- there is room for the root and all others, so that none of them is left out
  have hfetched : others.length ≤ e.config.traversal.maxNodeFetch := by
    rw [← hperm.length_eq, List.length_cons] at hroom
    omega
  have hids : (found.node :: found.neighbors).map Node.id = id :: others := by
    rw [List.map_cons, h.node, hneighbors, List.take_of_length_le hfetched]
  apply e.perm_of_opens hopens.nodes hsubopens.nodes
  · rw [hids]
    exact hperm
  · rw [hids]
    exact hnodup

/-! ## What is answered in time -/

open TxAction (SettlesIn reading_settlesIn)
open World (Steady placid_steady)

theorem settles_edgesFrom (id : String) (limit : Nat) :
    SettlesIn (Steady tenant t) (e.edgesFrom tenant id limit)
      (e.openEdges tenant (t.view.edgesFrom id limit)) :=
  (reading_settlesIn (placid_steady tenant t) .edgesFrom (·.edgesFrom id limit)).bind
    fun rows => SettlesIn.ofOutcome (e.openEdges tenant rows)

theorem settles_edgesTo (id : String) (limit : Nat) :
    SettlesIn (Steady tenant t) (e.edgesTo tenant id limit)
      (e.openEdges tenant (t.view.edgesTo id limit)) :=
  (reading_settlesIn (placid_steady tenant t) .edgesTo (·.edgesTo id limit)).bind
    fun rows => SettlesIn.ofOutcome (e.openEdges tenant rows)

theorem settles_neighbors (id : String) (asked : Nat) :
    Action.SettlesIn (Steady tenant t) (e.neighbors tenant id asked)
      (e.neighborhoodIn tenant t.view id asked) := by
  apply Action.transact_settlesIn (placid_steady tenant t)
  apply (e.settles_requireNode id).step.bind
  intro node
  exact (e.settles_edgesFrom id _).step.bind fun outgoing =>
    (e.settles_edgesTo id _).step.bind fun incoming =>
      (e.settles_nodesInOrder _).step.bind fun neighbors => .pure _

theorem exists_neighborhoodIn (hopen : e.CanOpen tenant t) {id : String} (hid : id ∈ t.nodes)
    (asked : Nat) : ∃ found, e.neighborhoodIn tenant t.view id asked = .ok found := by
  obtain ⟨node, hnode⟩ := e.exists_nodeIn hopen hid
  obtain ⟨outgoing, houtgoing⟩ := e.exists_openEdges hopen
    (e.config.traversal.neighborLimit asked) fun row => row.source == id
  obtain ⟨incoming, hincoming⟩ := e.exists_openEdges hopen
    (e.config.traversal.neighborLimit asked) fun row => row.target == id
  obtain ⟨neighbors, hneighbors⟩ := e.exists_nodesIn hopen
    ((otherEnds id (outgoing ++ incoming)).take e.config.traversal.maxNodeFetch)
  refine ⟨⟨node, neighbors, outgoing ++ incoming⟩, ?_⟩
  unfold neighborhoodIn View.edgesFrom View.edgesTo
  simp only [hnode, houtgoing, hincoming, hneighbors, bind, Except.bind]
  rfl

/-- Over every graph that can come about, without dangling edges and with payloads that all open, with
every valid configuration, for every node and whatever limit is asked for: while nobody else uses
the store and no request fails, the neighborhood is answered always alike, and it has the first
edges in either direction with the nodes at their other ends. If there are fewer edges than that
in both directions, the node and its neighbors are the nodes of every traversal with one hop that
does not say that it is truncated: there are then no more neighbors than are fetched. -/
theorem neighborhoods_agree_with_single_hops (hvalid : e.config.validate = .ok ()) (store : Store)
    (hstore : store.Reached) (tenant : Tenant) (hclosed : (store.tablesOf tenant).Closed)
    (hopen : e.CanOpen tenant (store.tablesOf tenant)) (id : String)
    (hid : id ∈ (store.tablesOf tenant).nodes) (asked : Nat) :
    let t := store.tablesOf tenant
    let limit := e.config.traversal.neighborLimit asked
    ∃ found, AnsweredInTime World.clock (Steady tenant t) (e.neighbors tenant id asked) found ∧
      found.Exact t e.config.traversal.maxNodeFetch id limit ∧
      e.Opens tenant t.view ⟨found.node :: found.neighbors, found.edges, false⟩ ∧
      (t.edges.keys.countP (·.source = id) < limit → t.edges.keys.countP (·.target = id) < limit →
        1 ≤ e.config.traversal.maxHops → ∀ scope w sub u, Steady tenant t w →
          e.traverse tenant id 1 scope w = .ok sub u → sub.truncated = false →
            (found.node :: found.neighbors).Perm sub.nodes) := by
  intro t limit
  have hconfig := (Config.validate_eq_ok_iff e.config).1 hvalid
  have ht : t.WellKeyed := hstore.wellKeyed tenant
  obtain ⟨found, hfound⟩ := e.exists_neighborhoodIn hopen hid asked
  have hexact := e.exact_of_neighborhoodIn ht hclosed hfound
  have hopens := e.opens_of_neighborhoodIn ht hfound
  have hsettles : Action.SettlesIn (Steady tenant t) (e.neighbors tenant id asked) _ :=
    e.settles_neighbors id asked
  rw [hfound] at hsettles
  refine ⟨found, hsettles.answeredInTime, hexact, hopens, ?_⟩
  intro hout hin hhops scope w sub u hw hrun huncut
  obtain ⟨n, ⟨hsub, _⟩, _⟩ := Action.transact_finds hw.alone (e.finds_subgraph id 1) hrun
  rw [hw.tables] at hsub
  have hsubexact := e.exact_of_subgraphIn ht hclosed hconfig hsub huncut
  rw [Nat.min_eq_left hhops] at hsubexact
  obtain ⟨ids, hspans⟩ := e.spans_of_subgraphIn ht hconfig hsub
  have hroom : sub.ids.length ≤ e.config.traversal.maxNodeFetch := by
    rw [hspans.nodes]
    exact (List.length_filter_le _ _).trans (hspans.length_le.trans (Nat.min_le_right _ _))
  exact e.perm_of_exact hexact hopens hout hin hsubexact (e.opens_of_subgraphIn ht hsub) hroom

/-- Two edges lead from a node to a second one and one leads back, a third node leads to it, and it
leads to itself. A fourth node is joined to the second one only. -/
theorem neighborhoods_agree_with_single_hops_at_a_loop :
    let e : Engine :=
      { nonce := fun _ => [], shuffle := fun _ ids => ids, shuffle_perm := fun _ _ => .refl _ }
    let acme : Tenant := ⟨"acme"⟩
    let node (id : String) : SealedNode := ⟨id, "concept", id, ⟨[0x7b, 0x7d]⟩, none, default⟩
    let edge (a b relation : String) : SealedEdge :=
      ⟨a, b, relation, 1.0, ⟨[0x7b, 0x7d]⟩, default⟩
    let nodes := ["a", "b", "c", "d"].foldl (fun tx id => tx.stageNode acme id (.put (node id)))
      (Store.begin {} .readWrite).1
    let tx := [edge "a" "a" "next", edge "a" "b" "next", edge "a" "b" "part", edge "b" "a" "next",
      edge "c" "a" "next", edge "b" "d" "next"].foldl
        (fun tx row => tx.stageEdge acme row.key (.put row)) nodes
    let w : World := { World.start {} default with store := Store.commit {} tx }
    let t := w.store.tablesOf acme
    e.config.validate = .ok () ∧ w.store.Reached ∧ t.Closed ∧ e.CanOpen acme t ∧ "a" ∈ t.nodes ∧
      ∃ found sub u v, e.neighbors acme "a" 0 .unbounded w = .ok found u ∧
        e.traverse acme "a" 1 .unbounded w = .ok sub v ∧ sub.truncated = false ∧
        found.Exact t 1000 "a" 100 ∧ found.edges.length = 6 ∧
        (found.node :: found.neighbors).Perm sub.nodes ∧ sub.ids = ["a", "b", "c"] := by
  intro e acme node edge nodes tx w t
  have hvalid : e.config.validate = .ok () := by decide +kernel
  have hnodes : nodes.Made :=
    .staged {} (.putNode (node "d")) acme (.staged {} (.putNode (node "c")) acme
      (.staged {} (.putNode (node "b")) acme (.staged {} (.putNode (node "a")) acme
        (.begun {} .readWrite) rfl) rfl) rfl) rfl
  have hmade : tx.Made :=
    .staged {} (.putEdge (edge "b" "d" "next")) acme
      (.staged {} (.putEdge (edge "c" "a" "next")) acme
        (.staged {} (.putEdge (edge "b" "a" "next")) acme
          (.staged {} (.putEdge (edge "a" "b" "part")) acme
            (.staged {} (.putEdge (edge "a" "b" "next")) acme
              (.staged {} (.putEdge (edge "a" "a" "next")) acme hnodes rfl) rfl) rfl) rfl) rfl) rfl
  have hstore : w.store.Reached := .committed (s := {}) (.empty rfl) hmade rfl
  have hids : t.nodes.keys = ["a", "b", "c", "d"] := by decide +kernel
  have hkeys : t.edges.keys = [⟨"a", "a", "next"⟩, ⟨"a", "b", "next"⟩, ⟨"a", "b", "part"⟩,
      ⟨"b", "a", "next"⟩, ⟨"b", "d", "next"⟩, ⟨"c", "a", "next"⟩] := by
    decide +kernel
  have hclosed : t.Closed := Tables.closed_of_keys hids hkeys (by decide)
  have hroot : "a" ∈ t.nodes := by
    rw [← Std.ExtTreeMap.mem_keys, hids]
    decide
  have hopen : e.CanOpen acme t := e.canOpen_of_isOk (by decide +kernel) (by decide +kernel)
  have hout : t.edges.keys.countP (·.source = "a") < 100 := by
    rw [hkeys]
    decide
  have hin : t.edges.keys.countP (·.target = "a") < 100 := by
    rw [hkeys]
    decide
  have hfoundshape : (answer? (e.neighbors acme "a" 0 .unbounded w)).map (·.edges.length) =
      some 6 := by
    decide +kernel
  have hsubshape : (answer? (e.traverse acme "a" 1 .unbounded w)).map
      (fun sub => (sub.ids, sub.truncated)) = some (["a", "b", "c"], false) := by
    decide +kernel
  obtain ⟨sub, hsub, hsubis⟩ := exists_ok_of_map_answer? hsubshape
  obtain ⟨hsubids, huncut⟩ := Prod.mk.inj hsubis
  obtain ⟨found, hanswered, hexact, _, hagrees⟩ :=
    neighborhoods_agree_with_single_hops e hvalid w.store hstore acme hclosed hopen "a" hroot 0
  have hsteady : Steady acme t w := ⟨rfl, fun _ _ => rfl, rfl⟩
  obtain ⟨u, hfound⟩ := hanswered .unbounded w hsteady (Scope.check_unbounded _)
  have hperm := hagrees hout hin (by decide) .unbounded w sub _ hsteady hsub huncut
  rw [hfound] at hfoundshape
  exact ⟨hvalid, hstore, hclosed, hopen, hroot, found, sub, u, _, hfound, hsub, huncut, hexact,
    Option.some.inj hfoundshape, hperm, hsubids⟩

end Engine
end SalientGraph
