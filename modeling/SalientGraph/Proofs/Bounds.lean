import SalientGraph.Proofs.Search.Fusing
import SalientGraph.Proofs.Search.Hits
import SalientGraph.Proofs.Stillness
import SalientGraph.Proofs.Store.Reached
import SalientGraph.Proofs.Traversal.Spans

/-!
# Bounds of queries

However large a graph is, and whatever is asked for, under a valid configuration no
query answers more than the configuration allows, and no traversal asks the store more
often. What is answered has really been found: traversals answer what can be reached,
and no query answers a node twice.
-/

namespace SalientGraph

/-- A subgraph around a root within some bounds: different nodes, the root first, all of them within
so many hops of it. -/
structure Subgraph.Bounded (t : Tables) (l : TraversalLimits) (root : String) (hops : Nat)
    (found : Subgraph) : Prop where
  nodup : found.ids.Nodup
  first : found.ids.head? = some root
  nodes_le : found.nodes.length ≤ min l.maxVisited l.maxNodeFetch
  near : ∀ id ∈ found.ids, Reaches t.Joins root (min hops l.maxHops) id
  edges_le : found.edges.length ≤ l.maxSubgraphEdges

namespace Engine

variable (e : Engine)

section

variable {tenant : Tenant} {scope : Scope} {w u : World} {limit : Nat}

/-! ## Traversals -/

theorem bounded_of_traverse (hvalid : e.config.IsValid) (hstore : w.store.Reached)
    (halone : w.conditions.others = []) {root : String} {hops : Nat} {found : Subgraph}
    (hrun : e.traverse tenant root hops scope w = .ok found u) :
    found.Bounded (w.store.tablesOf tenant) e.config.traversal root hops ∧
      u.store.expansions ≤ w.store.expansions + min hops e.config.traversal.maxHops := by
  obtain ⟨n, ⟨hfound, hasked⟩, htotal⟩ :=
    Action.transact_finds halone (e.finds_subgraph root hops) hrun
  obtain ⟨ids, hspans⟩ := e.spans_of_subgraphIn (hstore.wellKeyed tenant) hvalid hfound
  have hroot : (w.store.tablesOf tenant).nodes.contains root = true := hspans.stored
  have hsublist : found.ids.Sublist ids := by
    rw [hspans.nodes]
    exact List.filter_sublist
  have hlength : found.nodes.length = found.ids.length := (List.length_map _).symm
  refine ⟨⟨hsublist.nodup hspans.nodup, ?_, ?_, ?_, hspans.edges_le⟩, by omega⟩
  · -- the root is the first identifier, and it is stored
    have hfirst := hspans.first
    rw [hspans.nodes]
    cases ids with
    | nil => contradiction
    | cons id ids =>
        rw [Option.some.inj hfirst, List.filter_cons_of_pos hroot]
        rfl
  · rw [hlength]
    exact hsublist.length_le.trans hspans.length_le
  · exact fun id hid => hspans.near id (hsublist.mem hid)

theorem bounded_of_neighbors (hvalid : e.config.IsValid) (hstore : w.store.Reached)
    (halone : w.conditions.others = []) {id : String} {found : Neighborhood}
    (hrun : e.neighbors tenant id limit scope w = .ok found u) :
    ∃ outgoing incoming, found.Bounded (w.store.tablesOf tenant) e.config.traversal id
      outgoing incoming := by
  obtain ⟨n, hfound, _⟩ := Action.transact_finds halone (e.finds_neighborhood id limit) hrun
  exact e.bounded_of_neighborhoodIn (hstore.wellKeyed tenant) hvalid hfound

/-- A path search asks once for each of its hops. -/
theorem bounded_of_shortestPath (hvalid : e.config.IsValid) (hstore : w.store.Reached)
    (halone : w.conditions.others = []) {start target : String} {found : Path}
    (hrun : e.shortestPath tenant start target scope w = .ok found u) :
    ∃ hops, e.shortestPathRecorded tenant start target scope w = .ok (found, hops) u ∧
      u.store.expansions = w.store.expansions + hops.length ∧
      PathHop.Bounded e.config.traversal hops := by
  obtain ⟨hops, hrecorded⟩ := e.exists_recorded_of_shortestPath hrun
  obtain ⟨n, ⟨rfl, hpaths⟩, hasked⟩ :=
    Action.transact_finds halone (e.finds_pathRecorded start target) hrecorded
  exact ⟨hops, hrecorded, hasked, e.bounded_of_paths (hstore.wellKeyed tenant) hvalid hpaths⟩

/-! ## Searches -/

theorem bounded_of_fullTextSearch (hvalid : e.config.IsValid) (hstore : w.store.Reached)
    (halone : w.conditions.others = []) {q : TextQuery} {found : List OpenNode}
    (hrun : e.fullTextSearch tenant q limit scope w = .ok found u) :
    found.length ≤ e.config.search.maxLimit ∧ (found.map Node.id).Nodup := by
  unfold fullTextSearch at hrun
  split at hrun
  · cases hrun
    exact ⟨Nat.zero_le _, .nil⟩
  · obtain ⟨hits, v, hside, hdone⟩ := exists_of_bind_eq_ok hrun
    cases hdone
    obtain ⟨n, hfound, _⟩ := Action.transact_finds halone (e.finds_textSide q _) hside
    obtain ⟨hlength, hnodup⟩ := e.hits_of_textHitsIn (hstore.wellKeyed tenant) hfound
    rw [List.length_map, List.map_map]
    exact ⟨hlength.trans (hvalid.limit_le limit), hnodup⟩

theorem bounded_of_semanticSearch (hvalid : e.config.IsValid) (hstore : w.store.Reached)
    (halone : w.conditions.others = []) {embedding : List Single} {found : List ScoredNode}
    (hrun : e.semanticSearch tenant embedding limit scope w = .ok found u) :
    found.length ≤ e.config.search.maxLimit ∧ (found.map ScoredNode.id).Nodup := by
  obtain ⟨n, hfound, _⟩ := Action.transact_finds halone (e.finds_vectorSide embedding _) hrun
  obtain ⟨hlength, hnodup⟩ := e.hits_of_vectorHitsIn (hstore.wellKeyed tenant) hfound
  exact ⟨hlength.trans (hvalid.limit_le limit), hnodup⟩

/-- Whatever its two sides come to, a hybrid search answers a fused list. -/
theorem exists_fuse_of_hybridSearch {text : String} {embedding : Option (List Single)}
    {found : List ScoredNode}
    (hrun : e.hybridSearch tenant text embedding limit scope w = .ok found u) :
    ∃ lists, found = Fusion.fuse lists (e.config.search.limit limit) := by
  have hstill := (TxAction.editable_stillness tenant).hybrid e text embedding
    (e.config.search.limit limit)
  unfold hybridSearch at hrun
  rcases Action.transact_cases hstill scope w with ⟨_, _, hfault, _⟩ | ⟨a, s, t, v, _, hbody, _, hok⟩
  · rw [hfault] at hrun
    contradiction
  · rw [hok] at hrun
    cases hrun
    obtain ⟨sides, s₁, _, hfused⟩ := exists_of_bind_eq_ok hbody
    obtain ⟨byText, s₂, _, hfused⟩ := exists_of_bind_eq_ok hfused
    obtain ⟨byVector, s₃, _, hfused⟩ := exists_of_bind_eq_ok hfused
    cases hfused
    exact ⟨_, rfl⟩

theorem bounded_of_hybridSearch (hvalid : e.config.IsValid) {text : String}
    {embedding : Option (List Single)} {found : List ScoredNode}
    (hrun : e.hybridSearch tenant text embedding limit scope w = .ok found u) :
    found.length ≤ e.config.search.maxLimit ∧ (found.map ScoredNode.id).Nodup := by
  obtain ⟨lists, rfl⟩ := e.exists_fuse_of_hybridSearch hrun
  exact ⟨(Fusion.length_fuse_le _ _).trans (hvalid.limit_le limit), Fusion.nodup_ids_fuse _ _⟩

end

/-! ## All of them -/

/-- Under a valid configuration, alone on any store that can come about, every query that is answered
is bounded and sound, whether or not it is truncated. -/
theorem queries_are_bounded_and_sound (hvalid : e.config.validate = .ok ()) (w : World)
    (hstore : w.store.Reached) (halone : w.conditions.others = []) (tenant : Tenant)
    (scope : Scope) :
    (∀ root hops found u, e.traverse tenant root hops scope w = .ok found u →
      found.Bounded (w.store.tablesOf tenant) e.config.traversal root hops ∧
        u.store.expansions ≤ w.store.expansions + min hops e.config.traversal.maxHops) ∧
    (∀ id limit found u, e.neighbors tenant id limit scope w = .ok found u →
      ∃ outgoing incoming, found.Bounded (w.store.tablesOf tenant) e.config.traversal id
        outgoing incoming) ∧
    (∀ start target found u, e.shortestPath tenant start target scope w = .ok found u →
      ∃ hops, e.shortestPathRecorded tenant start target scope w = .ok (found, hops) u ∧
        u.store.expansions = w.store.expansions + hops.length ∧
        PathHop.Bounded e.config.traversal hops) ∧
    (∀ q limit found u, e.fullTextSearch tenant q limit scope w = .ok found u →
      found.length ≤ e.config.search.maxLimit ∧ (found.map Node.id).Nodup) ∧
    (∀ embedding limit found u, e.semanticSearch tenant embedding limit scope w = .ok found u →
      found.length ≤ e.config.search.maxLimit ∧ (found.map ScoredNode.id).Nodup) ∧
    ∀ text embedding limit found u,
      e.hybridSearch tenant text embedding limit scope w = .ok found u →
        found.length ≤ e.config.search.maxLimit ∧ (found.map ScoredNode.id).Nodup := by
  have hconfig := (Config.validate_eq_ok_iff e.config).1 hvalid
  refine ⟨?_, ?_, ?_, ?_, ?_, ?_⟩
  · exact fun _ _ _ _ hrun => e.bounded_of_traverse hconfig hstore halone hrun
  · exact fun _ _ _ _ hrun => e.bounded_of_neighbors hconfig hstore halone hrun
  · exact fun _ _ _ _ hrun => e.bounded_of_shortestPath hconfig hstore halone hrun
  · exact fun _ _ _ _ hrun => e.bounded_of_fullTextSearch hconfig hstore halone hrun
  · exact fun _ _ _ _ hrun => e.bounded_of_semanticSearch hconfig hstore halone hrun
  · exact fun _ _ _ _ _ hrun => e.bounded_of_hybridSearch hconfig hrun

/-- A node has two others around it, and there is room for one of them only. -/
theorem queries_are_bounded_and_sound_in_a_small_space :
    let e : Engine :=
      { config := { traversal := { maxVisited := 2 }, search := { defaultLimit := 1, maxLimit := 1 } }
        nonce := fun _ => [], shuffle := fun _ ids => ids, shuffle_perm := fun _ _ => .refl _ }
    let node (id : String) : SealedNode := ⟨id, "concept", id, ⟨[]⟩, none, default⟩
    let edge (a b : String) : SealedEdge := ⟨a, b, "next", 1.0, ⟨[]⟩, default⟩
    let nodes := (((Store.begin {} .readWrite).1.stageNode ⟨"acme"⟩ "a" (.put (node "a"))).stageNode
      ⟨"acme"⟩ "b" (.put (node "b"))).stageNode ⟨"acme"⟩ "c" (.put (node "c"))
    let tx := (nodes.stageEdge ⟨"acme"⟩ ⟨"a", "b", "next"⟩ (.put (edge "a" "b"))).stageEdge ⟨"acme"⟩
      ⟨"a", "c", "next"⟩ (.put (edge "a" "c"))
    let w : World := { World.start {} default with store := Store.commit {} tx }
    let t := w.store.tablesOf ⟨"acme"⟩
    e.config.validate = .ok () ∧ w.store.Reached ∧ w.conditions.others = [] ∧
      (∃ found u, e.traverse ⟨"acme"⟩ "a" 3 .unbounded w = .ok found u ∧ found.ids = ["a", "b"] ∧
        found.Bounded t e.config.traversal "a" 3) ∧
      (∃ found u, e.shortestPath ⟨"acme"⟩ "a" "b" .unbounded w = .ok found u ∧
        found.ids = ["a", "b"] ∧ ∃ hops, u.store.expansions = hops.length ∧
          PathHop.Bounded e.config.traversal hops) ∧
      ∃ found u, e.hybridSearch ⟨"acme"⟩ "a" none 9 .unbounded w = .ok found u ∧
        found.map ScoredNode.id = ["a"] ∧ found.length ≤ 1 := by
  intro e node edge nodes tx w t
  have hvalid : e.config.validate = .ok () := by decide +kernel
  have hmade : tx.Made :=
    .staged {} (.putEdge (edge "a" "c")) ⟨"acme"⟩ (.staged {} (.putEdge (edge "a" "b")) ⟨"acme"⟩
      (.staged {} (.putNode (node "c")) ⟨"acme"⟩ (.staged {} (.putNode (node "b")) ⟨"acme"⟩
        (.staged {} (.putNode (node "a")) ⟨"acme"⟩ (.begun {} .readWrite) rfl) rfl) rfl) rfl) rfl
  have hstore : w.store.Reached := .committed (.empty rfl) hmade rfl
  obtain ⟨htraverse, _, hpath, _, _, hhybrid⟩ :=
    queries_are_bounded_and_sound e hvalid w hstore rfl ⟨"acme"⟩ .unbounded
  have hsubgraph : (answer? (e.traverse ⟨"acme"⟩ "a" 3 .unbounded w)).map (·.ids) =
      some ["a", "b"] := by
    decide +kernel
  have hshortest : (answer? (e.shortestPath ⟨"acme"⟩ "a" "b" .unbounded w)).map (·.ids) =
      some ["a", "b"] := by
    decide +kernel
  have hhits : (answer? (e.hybridSearch ⟨"acme"⟩ "a" none 9 .unbounded w)).map
      (fun found => found.map ScoredNode.id) = some ["a"] := by
    decide +kernel
  refine ⟨hvalid, hstore, rfl, ?_, ?_, ?_⟩
  · obtain ⟨found, hrun, hids⟩ := exists_ok_of_map_answer? hsubgraph
    exact ⟨found, _, hrun, hids, (htraverse _ _ _ _ hrun).1⟩
  · obtain ⟨found, hrun, hids⟩ := exists_ok_of_map_answer? hshortest
    obtain ⟨hops, _, hasked, hbounded⟩ := hpath _ _ _ _ hrun
    rw [show w.store.expansions = 0 from rfl, Nat.zero_add] at hasked
    exact ⟨found, _, hrun, hids, hops, hasked, hbounded⟩
  · obtain ⟨found, hrun, hids⟩ := exists_ok_of_map_answer? hhits
    exact ⟨found, _, hrun, hids, (hhybrid _ _ _ _ _ hrun).1⟩

end Engine
end SalientGraph
