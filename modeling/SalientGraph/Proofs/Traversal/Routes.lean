import SalientGraph.Proofs.Traversal.Exactness

/-!
# Paths are simple routes

Whatever part of a frontier a search is left with when it samples it, the parents of the
nodes that it visits lead back to the start along edges. So if no edge dangles, a path
that is found goes from stored node to stored node, comes to none of them twice, and has
no more hops than a search may make. What sampling can do is to lose the path, not to
bend it.
-/

namespace SalientGraph

/-- A path that goes from its start to its target along stored edges in either direction, by so many
hops at most and through different nodes, each of them as it is stored. -/
structure Path.IsRoute (e : Engine) (tenant : Tenant) (t : Tables) (start target : String)
    (limit : Nat) (p : Path) : Prop where
  first : p.ids.head? = some start
  last : p.ids.getLast? = some target
  nodup : p.ids.Nodup
  hops_le : p.hops ≤ limit
  stored : ∀ id ∈ p.ids, id ∈ t.nodes
  opens : ∀ node ∈ p.nodes, e.nodeIn tenant t.view node.id = .ok node
  joined : p.ids.IsChain t.Joins

namespace Path

theorem ids_eq_nil_iff (p : Path) : p.ids = [] ↔ p.isEmpty = true := by
  simp [ids, isEmpty]

/-- There is one hop less than there are nodes. -/
theorem hops_eq (p : Path) : p.hops = p.ids.length - 1 := by
  simp [hops, ids]

end Path

/-- Along edges that do not dangle, one comes from a stored node to stored nodes only. -/
theorem Tables.Closed.mem_of_isChain {t : Tables} (h : t.Closed) {start : String}
    (hstart : start ∈ t.nodes) {ids : List String} (hchain : ids.IsChain t.Joins)
    (hfirst : ids.head? = some start) : ∀ id ∈ ids, id ∈ t.nodes := by
  obtain ⟨rest, rfl⟩ := List.head?_eq_some_iff.1 hfirst
  refine List.forall_mem_cons.2 ⟨hstart, hchain.cons_induction (· ∈ t.nodes) rest ?_ hstart⟩
  exact fun _ _ hjoins _ => h.mem_of_joins hjoins

namespace Engine

variable (e : Engine) {tenant : Tenant} {t : Tables} {start target : String} {answer : Path}
  {hops : List PathHop}

/-- Paths are looked for from stored nodes only. -/
theorem mem_of_paths (ht : t.WellKeyed) (h : e.Paths tenant t.view start target answer hops) :
    start ∈ t.nodes := by
  cases h with
  | same _ hnode => exact (e.mem_of_nodeIn ht hnode).2
  | missing _ hstart | sought _ hstart =>
      rw [View.node?_view] at hstart
      exact Std.ExtTreeMap.mem_iff_isSome_getElem?.2 hstart

/-- The nodes of a path are the stored ones, opened. -/
theorem opens_of_paths (ht : t.WellKeyed) (h : e.Paths tenant t.view start target answer hops) :
    ∀ node ∈ answer.nodes, e.nodeIn tenant t.view node.id = .ok node := by
  cases h with
  | @same node _ hnode =>
      intro other hother
      rw [List.mem_singleton.1 hother, (e.mem_of_nodeIn ht hnode).1]
      exact hnode
  | missing => exact List.forall_mem_nil _
  | @sought _ _ last found _ _ _ _ hanswer =>
      cases found with
      | false =>
          obtain rfl : answer = .unreachable last.truncated := hanswer
          exact List.forall_mem_nil _
      | true => exact e.nodeIn_of_mem_nodesIn ht hanswer.1

/-- If no edge dangles, nothing of a trail is missing in the path that is cut out of it. -/
theorem isRoute_of_paths (ht : t.WellKeyed) (hclosed : t.Closed) (hvalid : e.config.IsValid)
    (h : e.Paths tenant t.view start target answer hops) (hsome : answer.isEmpty = false) :
    answer.IsRoute e tenant t start target e.config.traversal.pathMaxHops := by
  obtain ⟨ids, hchain, hnodup, hids, hle, hnil | ⟨hfirst, hlast⟩⟩ :=
    e.bounded_trail_of_paths ht hvalid h
  · rw [hnil, List.filter_nil, Path.ids_eq_nil_iff, hsome] at hids
    contradiction
  · -- what is cut out are the nodes that are not stored, and a trail along edges has none
    have hstored := hclosed.mem_of_isChain (e.mem_of_paths ht h) hchain hfirst
    rw [List.filter_eq_self.2 hstored] at hids
    rw [← hids] at hchain hnodup hle hfirst hlast hstored
    refine ⟨hfirst, hlast, hnodup, ?_, hstored, e.opens_of_paths ht h, hchain⟩
    rw [Path.hops_eq]
    omega

/-- Over every committed graph without dangling edges and with every valid configuration, whatever
comes of the sampling of frontiers: a path that is found leads from its start to its target along
stored edges and through different stored nodes, with no more hops than a search may make. -/
theorem paths_are_simple_routes (hvalid : e.config.validate = .ok ()) (w : World)
    (hstore : w.store.Reached) (halone : w.conditions.others = []) (tenant : Tenant)
    (hclosed : (w.store.tablesOf tenant).Closed) (start target : String) (scope : Scope)
    (answer : Path) (v : World)
    (hrun : e.shortestPath tenant start target scope w = .ok answer v)
    (hsome : answer.isEmpty = false) :
    answer.IsRoute e tenant (w.store.tablesOf tenant) start target
      e.config.traversal.pathMaxHops := by
  have hconfig := (Config.validate_eq_ok_iff e.config).1 hvalid
  obtain ⟨hops, hrecorded⟩ := e.exists_recorded_of_shortestPath hrun
  obtain ⟨n, ⟨_, hpaths⟩, _⟩ :=
    Action.transact_finds halone (e.finds_pathRecorded start target) hrecorded
  exact e.isRoute_of_paths (hstore.wellKeyed tenant) hclosed hconfig hpaths hsome

/-- Two ways of two hops lead from the first of four nodes to the last one. Frontiers are sampled
down to one node, and the sample that is taken leaves the way through the second-last node. -/
theorem paths_are_simple_routes_through_a_sample :
    let e : Engine :=
      { config := { traversal := { pathFrontierCap := 1 } }
        nonce := fun _ => [], shuffle := fun _ ids => ids.reverse
        shuffle_perm := fun _ ids => ids.reverse_perm }
    let acme : Tenant := ⟨"acme"⟩
    let node (id : String) : SealedNode := ⟨id, "concept", id, ⟨[0x7b, 0x7d]⟩, none, default⟩
    let edge (a b : String) : SealedEdge := ⟨a, b, "next", 1.0, ⟨[0x7b, 0x7d]⟩, default⟩
    let nodes := ["a", "b", "c", "d"].foldl (fun tx id => tx.stageNode acme id (.put (node id)))
      (Store.begin {} .readWrite).1
    let tx := [edge "a" "b", edge "a" "c", edge "b" "d", edge "d" "c"].foldl
      (fun tx row => tx.stageEdge acme row.key (.put row)) nodes
    let w : World := { World.start {} default with store := Store.commit {} tx }
    let t := w.store.tablesOf acme
    e.config.validate = .ok () ∧ w.store.Reached ∧ w.conditions.others = [] ∧ t.Closed ∧
      ∃ answer v, e.shortestPath acme "a" "d" .unbounded w = .ok answer v ∧
        answer.isEmpty = false ∧ answer.ids = ["a", "c", "d"] ∧ answer.truncated = true ∧
        answer.IsRoute e acme t "a" "d" e.config.traversal.pathMaxHops := by
  intro e acme node edge nodes tx w t
  have hvalid : e.config.validate = .ok () := by decide +kernel
  have hnodes : nodes.Made :=
    .staged {} (.putNode (node "d")) acme (.staged {} (.putNode (node "c")) acme
      (.staged {} (.putNode (node "b")) acme (.staged {} (.putNode (node "a")) acme
        (.begun {} .readWrite) rfl) rfl) rfl) rfl
  have hmade : tx.Made :=
    .staged {} (.putEdge (edge "d" "c")) acme (.staged {} (.putEdge (edge "b" "d")) acme
      (.staged {} (.putEdge (edge "a" "c")) acme (.staged {} (.putEdge (edge "a" "b")) acme
        hnodes rfl) rfl) rfl) rfl
  have hstore : w.store.Reached := .committed (s := {}) (.empty rfl) hmade rfl
  have hids : t.nodes.keys = ["a", "b", "c", "d"] := by decide +kernel
  have hkeys : t.edges.keys =
      [⟨"a", "b", "next"⟩, ⟨"a", "c", "next"⟩, ⟨"b", "d", "next"⟩, ⟨"d", "c", "next"⟩] := by
    decide +kernel
  have hclosed : t.Closed := Tables.closed_of_keys hids hkeys (by decide)
  have hshape : (answer? (e.shortestPath acme "a" "d" .unbounded w)).map
      (fun answer => (answer.ids, answer.isEmpty, answer.truncated)) =
        some (["a", "c", "d"], false, true) := by
    decide +kernel
  obtain ⟨answer, hrun, hparts⟩ := exists_ok_of_map_answer? hshape
  obtain ⟨hroute, hsome, hcut⟩ : _ ∧ _ ∧ _ := by simpa using hparts
  exact ⟨hvalid, hstore, rfl, hclosed, answer, _, hrun, hsome, hroute, hcut,
    paths_are_simple_routes e hvalid w hstore rfl acme hclosed "a" "d" .unbounded answer _ hrun hsome⟩

end Engine
end SalientGraph
