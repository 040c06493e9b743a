import SalientGraph.Proofs.Store.Reached
import SalientGraph.Proofs.Traversal.Spans

/-!
# What is missing in traversals

An edge is put by a transaction that has found both its ends, but by the time that it
commits another transaction may have deleted one of them. Such an edge dangles, and a
traversal that goes along it comes to a node that is not there. What it answers then
leaves the node out and keeps the edge.
-/

namespace SalientGraph
namespace Engine

variable (e : Engine)

/-- Alone on any store that can come about, a subgraph has stored edges only, and of their ends it has
those that are stored. A path is what is stored of the nodes along some edges from its start to its
end. So either has all that it is about unless an edge dangles. -/
theorem traversals_leave_out_missing_nodes_only (hvalid : e.config.validate = .ok ()) (w : World)
    (hstore : w.store.Reached) (halone : w.conditions.others = []) (tenant : Tenant)
    (scope : Scope) :
    (∀ root hops found v, e.traverse tenant root hops scope w = .ok found v →
      ∀ edge ∈ found.edges, edge.key ∈ (w.store.tablesOf tenant).edges ∧
        (edge.source ∈ found.ids ↔ edge.source ∈ (w.store.tablesOf tenant).nodes) ∧
        (edge.target ∈ found.ids ↔ edge.target ∈ (w.store.tablesOf tenant).nodes)) ∧
    (∀ start target found v, e.shortestPath tenant start target scope w = .ok found v →
      ∃ ids : List String, ids.IsChain (w.store.tablesOf tenant).Joins ∧ ids.Nodup ∧
        (ids = [] ∨ ids.head? = some start ∧ ids.getLast? = some target) ∧
        found.ids = ids.filter (w.store.tablesOf tenant).nodes.contains) := by
  have hconfig := (Config.validate_eq_ok_iff e.config).1 hvalid
  have ht := hstore.wellKeyed tenant
  constructor
  · intro root hops found v hrun edge hedge
    obtain ⟨n, ⟨hfound, _⟩, _⟩ := Action.transact_finds halone (e.finds_subgraph root hops) hrun
    obtain ⟨ids, hspans⟩ := e.spans_of_subgraphIn ht hconfig hfound
    obtain ⟨hstored, hsource, htarget⟩ := hspans.edges edge hedge
    have hends : ∀ id ∈ ids, id ∈ found.ids ↔ id ∈ (w.store.tablesOf tenant).nodes := by
      intro id hid
      rw [hspans.nodes, List.mem_filter]
      exact ⟨fun h => h.2, fun h => ⟨hid, h⟩⟩
    exact ⟨hstored, hends _ hsource, hends _ htarget⟩
  · intro start target found v hrun
    obtain ⟨hops, hrecorded⟩ := e.exists_recorded_of_shortestPath hrun
    obtain ⟨n, ⟨_, hpaths⟩, _⟩ :=
      Action.transact_finds halone (e.finds_pathRecorded start target) hrecorded
    obtain ⟨ids, hchain, hnodup, hids, hends⟩ := e.trail_of_paths ht hconfig hpaths
    exact ⟨ids, hchain, hnodup, hends, hids⟩

/-- The node between two others is missing, and the edges from it and to it dangle. The subgraph has
the edges without the node, and the path is what is left of three nodes. -/
theorem traversals_leave_out_missing_nodes_only_between_others :
    let e : Engine :=
      { nonce := fun _ => [], shuffle := fun _ ids => ids, shuffle_perm := fun _ _ => .refl _ }
    let node (id : String) : SealedNode := ⟨id, "concept", id, ⟨[0x7b, 0x7d]⟩, none, default⟩
    let edge (a b : String) : SealedEdge := ⟨a, b, "next", 1.0, ⟨[0x7b, 0x7d]⟩, default⟩
    let nodes := ((Store.begin {} .readWrite).1.stageNode ⟨"acme"⟩ "a" (.put (node "a"))).stageNode
      ⟨"acme"⟩ "c" (.put (node "c"))
    let tx := (nodes.stageEdge ⟨"acme"⟩ ⟨"a", "m", "next"⟩ (.put (edge "a" "m"))).stageEdge ⟨"acme"⟩
      ⟨"m", "c", "next"⟩ (.put (edge "m" "c"))
    let w : World := { World.start {} default with store := Store.commit {} tx }
    let t := w.store.tablesOf ⟨"acme"⟩
    e.config.validate = .ok () ∧ w.store.Reached ∧ w.conditions.others = [] ∧
      (∃ found v, e.traverse ⟨"acme"⟩ "a" 2 .unbounded w = .ok found v ∧
        ∃ edge ∈ found.edges, edge.source ∈ found.ids ∧ edge.target ∉ found.ids) ∧
      ∃ found v, e.shortestPath ⟨"acme"⟩ "a" "c" .unbounded w = .ok found v ∧
        found.ids ≠ [] ∧ ∃ ids : List String, ids.IsChain t.Joins ∧
          ids.head? = some "a" ∧ ids.getLast? = some "c" ∧ found.ids = ids.filter t.nodes.contains := by
  intro e node edge nodes tx w t
  have hvalid : e.config.validate = .ok () := by decide +kernel
  have hmade : tx.Made :=
    .staged {} (.putEdge (edge "m" "c")) ⟨"acme"⟩ (.staged {} (.putEdge (edge "a" "m")) ⟨"acme"⟩
      (.staged {} (.putNode (node "c")) ⟨"acme"⟩ (.staged {} (.putNode (node "a")) ⟨"acme"⟩
        (.begun {} .readWrite) rfl) rfl) rfl) rfl
  have hstore : w.store.Reached := .committed (.empty rfl) hmade rfl
  obtain ⟨hsubgraphs, hpaths⟩ :=
    traversals_leave_out_missing_nodes_only e hvalid w hstore rfl ⟨"acme"⟩ .unbounded
  have hends : t.nodes.keys = ["a", "c"] := by decide +kernel
  have hsubgraph : (answer? (e.traverse ⟨"acme"⟩ "a" 2 .unbounded w)).map
      (fun found => found.edges.map Edge.key) =
        some [⟨"a", "m", "next"⟩, ⟨"m", "c", "next"⟩] := by
    decide +kernel
  have hpath : (answer? (e.shortestPath ⟨"acme"⟩ "a" "c" .unbounded w)).map
      (fun found => found.ids.isEmpty) = some false := by
    decide +kernel
  refine ⟨hvalid, hstore, rfl, ?_, ?_⟩
  · obtain ⟨found, hfound, hkeys⟩ := exists_ok_of_map_answer? hsubgraph
    have hmem : (⟨"a", "m", "next"⟩ : EdgeKey) ∈ found.edges.map Edge.key := by
      rw [hkeys]
      exact List.mem_cons_self
    obtain ⟨edge, hedge, hkey⟩ := List.mem_map.1 hmem
    obtain ⟨_, hsource, htarget⟩ := hsubgraphs _ _ _ _ hfound edge hedge
    have ha : edge.source = "a" := congrArg EdgeKey.source hkey
    have hm : edge.target = "m" := congrArg EdgeKey.target hkey
    refine ⟨found, _, hfound, edge, hedge, hsource.2 ?_, mt htarget.1 ?_⟩
    · rw [ha, ← Std.ExtTreeMap.mem_keys]
      show "a" ∈ t.nodes.keys
      rw [hends]
      decide
    · rw [hm, ← Std.ExtTreeMap.mem_keys]
      show "m" ∉ t.nodes.keys
      rw [hends]
      decide
  · obtain ⟨found, hfound, hsome⟩ := exists_ok_of_map_answer? hpath
    have hne : found.ids ≠ [] := by
      intro hnil
      rw [hnil] at hsome
      contradiction
    obtain ⟨ids, hchain, _, hnil | ⟨hhead, hlast⟩, hids⟩ := hpaths _ _ _ _ hfound
    · rw [hids, hnil] at hne
      exact absurd rfl hne
    · exact ⟨found, _, hfound, hne, ids, hchain, hhead, hlast, hids⟩

/-- Two edges are put while the node between the others is there, and before they are committed an
overlapping transaction deletes it. The subgraph then has edges to a node that it does not
have, and the path goes in one step where no edge is. -/
theorem overlapping_deletion_breaks_traversals :
    let e : Engine :=
      { nonce := fun _ => [], shuffle := fun _ ids => ids, shuffle_perm := fun _ _ => .refl _ }
    let acme : Tenant := ⟨"acme"⟩
    let overlapping : Action Unit := do
      let _ ← e.createNode acme (Node.create "a" "concept" "a" default)
      let _ ← e.createNode acme (Node.create "m" "concept" "m" default)
      let _ ← e.createNode acme (Node.create "c" "concept" "c" default)
      let linking ← Action.begin .readWrite
      let (_, linking) ← Action.session linking (do
        let _ ← e.putEdge acme (Edge.create ⟨"a", "m", "next"⟩ default)
        e.putEdge acme (Edge.create ⟨"m", "c", "next"⟩ default))
      let deleting ← Action.begin .readWrite
      let (_, deleting) ← Action.session deleting (deleteNode acme "m")
      Action.commit deleting
      Action.commit linking
    ∃ w, overlapping .unbounded (World.start {} default) = .ok () w ∧
      e.config.validate = .ok () ∧ w.conditions.others = [] ∧
      (∃ found v, e.traverse acme "a" 2 .unbounded w = .ok found v ∧
        ∃ edge ∈ found.edges, edge.target ∉ found.ids) ∧
      ∃ found v, e.shortestPath acme "a" "c" .unbounded w = .ok found v ∧
        found.ids = ["a", "c"] ∧ ¬ (w.store.tablesOf acme).Joins "a" "c" := by
  intro e acme overlapping
  let w := finalState (overlapping .unbounded (World.start {} default))
  have hrun : (answer? (overlapping .unbounded (World.start {} default))).map id = some () := by
    decide +kernel
  obtain ⟨_, hok, _⟩ := exists_ok_of_map_answer? hrun
  have hsubgraph : (answer? (e.traverse acme "a" 2 .unbounded w)).map
      (fun found => (found.ids, found.edges.map Edge.key)) =
        some (["a", "c"], [⟨"a", "m", "next"⟩, ⟨"m", "c", "next"⟩]) := by
    decide +kernel
  have hpath : (answer? (e.shortestPath acme "a" "c" .unbounded w)).map (fun found => found.ids) =
      some ["a", "c"] := by
    decide +kernel
  have hedges : (w.store.tablesOf acme).edges.keys =
      [⟨"a", "m", "next"⟩, ⟨"m", "c", "next"⟩] := by
    decide +kernel
  obtain ⟨found, hfound, hshape⟩ := exists_ok_of_map_answer? hsubgraph
  obtain ⟨hids, hkeys⟩ := Prod.mk.inj hshape
  obtain ⟨path, hpathok, hpathids⟩ := exists_ok_of_map_answer? hpath
  refine ⟨w, hok, by decide +kernel, by decide +kernel, ⟨found, _, hfound, ?_⟩,
    path, _, hpathok, hpathids, ?_⟩
  · have hmem : (⟨"a", "m", "next"⟩ : EdgeKey) ∈ found.edges.map Edge.key := by
      rw [hkeys]
      exact List.mem_cons_self
    obtain ⟨edge, hedge, hkey⟩ := List.mem_map.1 hmem
    have htarget : edge.target = "m" := congrArg EdgeKey.target hkey
    refine ⟨edge, hedge, ?_⟩
    rw [htarget, hids]
    decide
  · rintro ⟨relation, hforth | hback⟩
    · rw [← Std.ExtTreeMap.mem_keys, hedges] at hforth
      simp at hforth
    · rw [← Std.ExtTreeMap.mem_keys, hedges] at hback
      simp at hback

end Engine
end SalientGraph
