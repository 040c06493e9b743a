import Mathlib.Data.List.Infix
import SalientGraph.Proofs.Store.Reached
import SalientGraph.Proofs.Traversal.Completeness
import SalientGraph.Proofs.Traversal.Spans

/-!
# Traversals with more hops

With more hops, a traversal goes on where one with fewer hops has stopped. Whatever the
caps have cut off stays cut off, so that the nodes found with fewer hops come first
among those found with more of them, and a traversal that is truncated stays so. With
more nodes there are more edges among them, unless there are too many of these to be
listed.
-/

namespace SalientGraph

/-! ## Expansions -/

/-- An expansion goes on from another one: what was discovered comes first, and what was truncated
stays so. -/
structure Expansion.GoesOn (x y : Expansion) : Prop where
  order : x.order <+: y.order
  truncated : x.truncated = true → y.truncated = true

namespace View

variable (v : View) (l : TraversalLimits)

theorem order_prefix_expand (hops : Nat) :
    ∀ x : Expansion, x.order <+: (v.expand l hops x).order := by
  induction hops with
  | zero => exact fun x => List.prefix_rfl
  | succ hops ih =>
      intro x
      have hhop : x.order <+: (v.grown l x).order := List.prefix_append _ _
      rw [expand_succ]
      split
      · exact List.prefix_rfl
      · split
        · exact List.prefix_rfl
        · split
          · exact hhop
          · exact hhop.trans (ih (v.grown l x))

theorem goesOn_expand (hops : Nat) (x : Expansion) : x.GoesOn (v.expand l hops x) where
  order := v.order_prefix_expand l hops x
  truncated h := by
    cases huncut : (v.expand l hops x).truncated with
    | true => rfl
    | false =>
        rw [View.truncated_of_expand hops huncut] at h
        contradiction

/-- Up to the last hop that both of them make, two expansions are the same. -/
theorem goesOn_expand_of_le {hops : Nat} :
    ∀ {more : Nat}, hops ≤ more → ∀ x : Expansion,
      (v.expand l hops x).GoesOn (v.expand l more x) := by
  induction hops with
  | zero => exact fun {more} _ x => v.goesOn_expand l more x
  | succ hops ih =>
      intro more hle x
      obtain ⟨more, rfl⟩ := Nat.exists_eq_add_of_le' (Nat.lt_of_lt_of_le (Nat.succ_pos _) hle)
      rw [expand_succ, expand_succ]
      split
      · exact ⟨List.prefix_rfl, id⟩
      · split
        · exact ⟨List.prefix_rfl, id⟩
        · split
          · exact ⟨List.prefix_rfl, id⟩
          · exact ih (Nat.le_of_succ_le_succ hle) _

/-! ## Reads -/

variable {v}

theorem prefix_nodesOf {ids more : List String} (hmore : more.Nodup) (h : ids <+: more) :
    v.nodesOf ids ids.length <+: v.nodesOf more more.length := by
  rw [v.nodesOf_of_nodup hmore, v.nodesOf_of_nodup (h.sublist.nodup hmore)]
  exact h.filterMap v.node?

variable {ids more : List String} {limit : Nat}

theorem joinsWithin_of_subset (h : ids ⊆ more) {row : SealedEdge}
    (hrow : joinsWithin ids row = true) : joinsWithin more row = true := by
  rw [joinsWithin_iff] at hrow ⊢
  exact ⟨h hrow.1, h hrow.2⟩

/-- Among more nodes, no fewer edges are listed. -/
theorem length_edgesWithin_le_of_subset (h : ids ⊆ more) :
    (v.edgesWithin ids limit).length ≤ (v.edgesWithin more limit).length := by
  have hlength (some : List String) : (v.edgesWithin some limit).length =
      min limit (v.edges.countP (joinsWithin some)) :=
    v.length_scanEdges limit (joinsWithin some)
  have hcount : v.edges.countP (joinsWithin ids) ≤ v.edges.countP (joinsWithin more) :=
    List.countP_mono_left fun _ _ => joinsWithin_of_subset h
  rw [hlength, hlength]
  omega

/-- If the list of the edges among more nodes is not full, no edge is missing on it. -/
theorem edgesWithin_subset (h : ids ⊆ more) (hfew : (v.edgesWithin more limit).length < limit) :
    v.edgesWithin ids limit ⊆ v.edgesWithin more limit := by
  intro row hrow
  obtain ⟨hstored, hwithin⟩ := mem_edges_of_mem_scanEdges hrow
  have hall : v.edgesWithin more limit = v.edges.filter _ := scanEdges_of_length_lt hfew
  rw [hall]
  exact List.mem_filter.2 ⟨hstored, joinsWithin_of_subset h hwithin⟩

end View

/-! ## Subgraphs -/

/-- A subgraph goes on from another one with the same limit on edges: its nodes come first, what was
truncated stays so, and all of its edges are kept unless the limit is reached. -/
structure Subgraph.GoesOn (limit : Nat) (near far : Subgraph) : Prop where
  nodes : near.nodes <+: far.nodes
  truncated : near.truncated = true → far.truncated = true
  edges : far.edges.length < limit → near.edges ⊆ far.edges

namespace Engine

variable (e : Engine) {tenant : Tenant} {v : View} {t : Tables}

theorem prefix_of_nodesIn {ids more : List String} (hmore : more.Nodup) (h : ids <+: more)
    {nodes others : List OpenNode} (hnodes : e.nodesIn tenant v ids = .ok nodes)
    (hothers : e.nodesIn tenant v more = .ok others) : nodes <+: others :=
  prefix_of_mapM_eq_ok (View.prefix_nodesOf hmore h) hnodes hothers

/-- An expansion that goes on from another one induces a subgraph that goes on as well. -/
theorem goesOn_of_inducedIn {x y : Expansion} (hnodup : y.order.Nodup) (h : x.GoesOn y)
    {near far : Subgraph} (hnear : e.inducedIn tenant v x = .ok near)
    (hfar : e.inducedIn tenant v y = .ok far) :
    near.GoesOn e.config.traversal.maxSubgraphEdges far := by
  obtain ⟨nodes, hnodes, hnear⟩ := exists_of_bind_eq_ok_except hnear
  obtain ⟨edges, hedges, hnear⟩ := exists_of_bind_eq_ok_except hnear
  obtain ⟨others, hothers, hfar⟩ := exists_of_bind_eq_ok_except hfar
  obtain ⟨links, hlinks, hfar⟩ := exists_of_bind_eq_ok_except hfar
  cases hnear
  cases hfar
  let fetched := e.config.traversal.maxNodeFetch
  have hids : x.order.take fetched <+: y.order.take fetched :=
    h.order.take fetched
  have hsubset : x.order.take fetched ⊆ y.order.take fetched := hids.subset
  refine ⟨?_, ?_, ?_⟩
  · exact e.prefix_of_nodesIn ((List.take_sublist _ _).nodup hnodup) hids hnodes hothers
  · -- each of the three limits stays reached
    have hlength := h.order.length_le
    have hcount : edges.length ≤ links.length := by
      rw [e.length_of_openEdges hedges, e.length_of_openEdges hlinks]
      exact View.length_edgesWithin_le_of_subset hsubset
    simp only [Bool.or_eq_true, decide_eq_true_eq]
    rintro ((hexpanded | hfetched) | hlisted)
    · exact .inl (.inl (h.truncated hexpanded))
    · exact .inl (.inr (by omega))
    · exact .inr (by omega)
  · intro hfew
    have hrows := hfew
    rw [e.length_of_openEdges hlinks] at hrows
    exact subset_of_mapM_eq_ok (View.edgesWithin_subset hsubset hrows) hedges hlinks

theorem nodesIn_singleton {id : String} {node : OpenNode}
    (h : e.nodeIn tenant v id = .ok node) : e.nodesIn tenant v [id] = .ok [node] := by
  unfold nodeIn at h
  unfold nodesIn openNodes
  rw [v.nodesOf_of_nodup (List.pairwise_singleton _ id)]
  cases hrow : v.node? id with
  | none =>
      rw [hrow] at h
      contradiction
  | some row =>
      rw [hrow] at h
      rw [List.filterMap_cons_some hrow, List.mapM_cons]
      exact congrArg (· >>= fun opened => Except.ok [opened]) h

/-- Every subgraph goes on from its root. -/
theorem goesOn_root {root : String} {x : Expansion} (hfirst : x.order.head? = some root)
    (hnodup : x.order.Nodup) (hroom : 0 < e.config.traversal.maxNodeFetch) {node : OpenNode}
    (hnode : e.nodeIn tenant v root = .ok node) {found : Subgraph}
    (h : e.inducedIn tenant v x = .ok found) (limit : Nat) :
    Subgraph.GoesOn limit ⟨[node], [], false⟩ found := by
  obtain ⟨nodes, hnodes, h⟩ := exists_of_bind_eq_ok_except h
  obtain ⟨edges, hedges, h⟩ := exists_of_bind_eq_ok_except h
  cases h
  have hids : [root] <+: x.order.take e.config.traversal.maxNodeFetch := by
    obtain ⟨rest, hrest⟩ := List.head?_eq_some_iff.1 hfirst
    obtain ⟨room, hroom⟩ := Nat.exists_eq_add_of_le' hroom
    rw [hrest, hroom, List.take_succ_cons]
    exact List.prefix_append [root] _
  have hfetched := (List.take_sublist e.config.traversal.maxNodeFetch x.order).nodup hnodup
  exact ⟨e.prefix_of_nodesIn hfetched hids (e.nodesIn_singleton hnode) hnodes,
    (nomatch ·), fun _ => List.nil_subset _⟩

theorem goesOn_of_subgraphIn (ht : t.WellKeyed) (hvalid : e.config.IsValid) {root : String}
    {hops more : Nat} (hle : hops ≤ more) {near far : Subgraph}
    (hnear : e.subgraphIn tenant t.view root hops = .ok near)
    (hfar : e.subgraphIn tenant t.view root more = .ok far) :
    near.GoesOn e.config.traversal.maxSubgraphEdges far := by
  obtain ⟨node, hnode, hnear⟩ := exists_of_bind_eq_ok_except hnear
  obtain ⟨_, hsame, hfar⟩ := exists_of_bind_eq_ok_except hfar
  cases hnode.symm.trans hsame
  have hrooted := ht.rooted_expand e.config.traversal (min more e.config.traversal.maxHops)
    (Expansion.rooted_ofRoot t.Joins root hvalid.maxVisited_pos)
  split at hnear
  · cases hnear
    split at hfar
    · cases hfar
      exact ⟨List.prefix_rfl, id, fun _ => List.Subset.refl _⟩
    · exact e.goesOn_root hrooted.first hrooted.nodup hvalid.maxNodeFetch_pos hnode hfar _
  · rename_i hhops
    rw [if_neg (by omega)] at hfar
    have hmin : min hops e.config.traversal.maxHops ≤ min more e.config.traversal.maxHops := by
      omega
    exact e.goesOn_of_inducedIn hrooted.nodup
      (t.view.goesOn_expand_of_le e.config.traversal hmin _) hnear hfar

/-- Over every committed graph and with every valid configuration: if two traversals of the same
graph from the same root are answered, whenever and within whatever scopes, the one with more hops
goes on from the one with fewer of them. -/
theorem traversals_go_on_with_more_hops (hvalid : e.config.validate = .ok ()) (w later : World)
    (hstore : w.store.Reached) (halone : w.conditions.others = [])
    (hundisturbed : later.conditions.others = []) (tenant : Tenant)
    (hsame : later.store.tablesOf tenant = w.store.tablesOf tenant) (root : String)
    {hops more : Nat} (hle : hops ≤ more) {near far : Subgraph} {scope wider : Scope} {u v : World}
    (hnear : e.traverse tenant root hops scope w = .ok near u)
    (hfar : e.traverse tenant root more wider later = .ok far v) :
    near.GoesOn e.config.traversal.maxSubgraphEdges far := by
  have hconfig := (Config.validate_eq_ok_iff e.config).1 hvalid
  obtain ⟨_, ⟨hfew, _⟩, _⟩ := Action.transact_finds halone (e.finds_subgraph root hops) hnear
  obtain ⟨_, ⟨hmany, _⟩, _⟩ := Action.transact_finds hundisturbed (e.finds_subgraph root more) hfar
  rw [hsame] at hmany
  exact e.goesOn_of_subgraphIn (hstore.wellKeyed tenant) hconfig hle hfew hmany

/-- An edge leads from the first of four nodes to the second one, and from there one leads to each of
the others. Only three nodes may be visited. Some time later, a traversal that has a deadline and
makes a second hop comes to the third node in addition, and has no room for the fourth one. -/
theorem traversals_go_on_with_more_hops_up_to_the_cap :
    let e : Engine :=
      { config := { traversal := { maxVisited := 3 } }
        nonce := fun _ => [], shuffle := fun _ ids => ids, shuffle_perm := fun _ _ => .refl _ }
    let acme : Tenant := ⟨"acme"⟩
    let node (id : String) : SealedNode := ⟨id, "concept", id, ⟨[0x7b, 0x7d]⟩, none, default⟩
    let edge (a b : String) : SealedEdge := ⟨a, b, "next", 1.0, ⟨[0x7b, 0x7d]⟩, default⟩
    let nodes := ["a", "b", "c", "d"].foldl (fun tx id => tx.stageNode acme id (.put (node id)))
      (Store.begin {} .readWrite).1
    let tx := [edge "a" "b", edge "b" "c", edge "b" "d"].foldl
      (fun tx row => tx.stageEdge acme row.key (.put row)) nodes
    let w : World := { World.start {} default with store := Store.commit {} tx }
    let later := w.advance 500
    e.config.validate = .ok () ∧ w.store.Reached ∧ w.conditions.others = [] ∧
      later.conditions.others = [] ∧ later.store.tablesOf acme = w.store.tablesOf acme ∧
      ∃ near u far v, e.traverse acme "a" 1 .unbounded w = .ok near u ∧
        e.traverse acme "a" 2 ⟨some 1000, none⟩ later = .ok far v ∧
        near.GoesOn e.config.traversal.maxSubgraphEdges far ∧ near.edges ⊆ far.edges ∧
        near.ids = ["a", "b"] ∧ near.truncated = false ∧
        far.ids = ["a", "b", "c"] ∧ far.truncated = true := by
  intro e acme node edge nodes tx w later
  have hvalid : e.config.validate = .ok () := by decide +kernel
  have hnodes : nodes.Made :=
    .staged {} (.putNode (node "d")) acme (.staged {} (.putNode (node "c")) acme
      (.staged {} (.putNode (node "b")) acme (.staged {} (.putNode (node "a")) acme
        (.begun {} .readWrite) rfl) rfl) rfl) rfl
  have hmade : tx.Made :=
    .staged {} (.putEdge (edge "b" "d")) acme (.staged {} (.putEdge (edge "b" "c")) acme
      (.staged {} (.putEdge (edge "a" "b")) acme hnodes rfl) rfl) rfl
  have hstore : w.store.Reached := .committed (s := {}) (.empty rfl) hmade rfl
  have hkept : ∀ w : World, (w.advance 500).store = w.store := fun _ => rfl
  have hnear : (answer? (e.traverse acme "a" 1 .unbounded w)).map
      (fun found => (found.ids, found.truncated)) = some (["a", "b"], false) := by
    decide +kernel
  have hfar : (answer? (e.traverse acme "a" 2 ⟨some 1000, none⟩ later)).map
      (fun found => (found.ids, found.edges.length, found.truncated)) =
        some (["a", "b", "c"], 2, true) := by
    decide +kernel
  obtain ⟨near, hnearok, hnearshape⟩ := exists_ok_of_map_answer? hnear
  obtain ⟨far, hfarok, hfarshape⟩ := exists_ok_of_map_answer? hfar
  obtain ⟨hnearids, huncut⟩ := Prod.mk.inj hnearshape
  obtain ⟨hfarids, hrest⟩ := Prod.mk.inj hfarshape
  obtain ⟨hlength, hcut⟩ := Prod.mk.inj hrest
  have hsame : later.store.tablesOf acme = w.store.tablesOf acme :=
    congrArg (Store.tablesOf · acme) (hkept w)
  have hon := traversals_go_on_with_more_hops e hvalid w later hstore rfl rfl acme hsame "a"
    (Nat.le_succ 1) hnearok hfarok
  have hfew : far.edges.length < e.config.traversal.maxSubgraphEdges := by
    rw [hlength]
    decide
  exact ⟨hvalid, hstore, rfl, rfl, hsame, near, _, far, _, hnearok, hfarok, hon, hon.edges hfew,
    hnearids, huncut, hfarids, hcut⟩

end Engine
end SalientGraph
