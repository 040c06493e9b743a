import SalientGraph.Proofs.Precedence
import SalientGraph.Proofs.Traversal.Exactness

/-!
# Contexts reorder what a traversal finds

A context is made of the subgraph that a traversal has found: its root is put aside, and
the other nodes and the edges are sorted by their salience. Nothing is lost or doubled,
and the order is strict, since a traversal finds no node and no edge twice.
-/

namespace SalientGraph

/-- A context has the root of a subgraph, its other nodes and its edges, the more salient ones before
the less salient ones and those of one salience in the order of their identifiers or keys. -/
structure Context.Reorders (id : String) (found : Subgraph) (result : Context) : Prop where
  root : result.root.id = id
  nodes : (result.root :: result.nodes).Perm found.nodes
  others : ∀ node ∈ result.nodes, node.id ≠ id
  nodes_ordered : result.nodes.Pairwise
    (Precedes (·.relevance.salience) fun a b => a.id < b.id)
  edges : result.edges.Perm found.edges
  edges_ordered : result.edges.Pairwise
    (Precedes (·.relevance.salience) fun a b => a.key.order b.key = .lt)
  truncated : result.truncated = found.truncated

/-- No edge among some nodes is listed twice. -/
theorem Tables.WellKeyed.nodup_keys_edgesWithin {t : Tables} (ht : t.WellKeyed) (ids : List String)
    (limit : Nat) : ((t.view.edgesWithin ids limit).map Edge.key).Nodup := by
  let inside := Std.ExtTreeSet.ofList ids compare
  let told (key : EdgeKey) : Bool := inside.contains key.source && inside.contains key.target
  have hkeys : (t.view.edgesWithin ids limit).map Edge.key = (t.edges.keys.filter told).take limit :=
    ht.map_key_scanEdges told limit
  rw [hkeys]
  exact (List.take_sublist _ _).nodup (Std.ExtTreeMap.nodup_keys.filter _)

namespace Engine

/-! ## The orders of a context -/

instance : Std.TransCmp nodeOrder :=
  have := transCmp_on descending fun n : OpenNode => n.relevance.salience
  have := transCmp_on compare fun n : OpenNode => n.id
  inferInstanceAs (Std.TransCmp (compareLex _ _))

instance : Std.TransCmp edgeOrder :=
  have := transCmp_on descending fun x : OpenEdge => x.relevance.salience
  have := transCmp_on EdgeKey.order fun x : OpenEdge => x.key
  inferInstanceAs (Std.TransCmp (compareLex _ _))

theorem nodeOrder_eq_lt_iff (a b : OpenNode) : nodeOrder a b = .lt ↔
    Precedes (·.relevance.salience) (fun a b : OpenNode => a.id < b.id) a b :=
  descending_then_eq_lt_iff (fun n : OpenNode => n.relevance.salience)
    (fun a b => compare a.id b.id) (fun _ _ => compare_lt_iff_lt) a b

theorem edgeOrder_eq_lt_iff (a b : OpenEdge) : edgeOrder a b = .lt ↔
    Precedes (·.relevance.salience) (fun a b : OpenEdge => a.key.order b.key = .lt) a b :=
  descending_then_eq_lt_iff (fun x : OpenEdge => x.relevance.salience)
    (fun a b => a.key.order b.key) (fun _ _ => Iff.rfl) a b

theorem id_eq_of_nodeOrder (a b : OpenNode) (h : nodeOrder a b = .eq) : a.id = b.id :=
  Std.LawfulEqOrd.eq_of_compare (Ordering.then_eq_eq.1 h).2

theorem key_eq_of_edgeOrder (a b : OpenEdge) (h : edgeOrder a b = .eq) : a.key = b.key :=
  Std.LawfulEqCmp.eq_of_compare (Ordering.then_eq_eq.1 h).2

/-! ## What a subgraph is turned into -/

/-- The context that a subgraph is turned into. -/
def contextOf (id : String) (found : Subgraph) : Except Fault Context :=
  match found.nodes.find? (·.id == id) with
  | some root => .ok ⟨root, sortedBy nodeOrder (found.nodes.eraseP (·.id == id)),
      sortedBy edgeOrder found.edges, found.truncated⟩
  | none => .error (.notFound ("node " ++ id))

/-- What is found first is what is put aside. -/
theorem perm_of_find? {id : String} {nodes : List OpenNode} {root : OpenNode}
    (h : nodes.find? (·.id == id) = some root) :
    (root :: nodes.eraseP (·.id == id)).Perm nodes := by
  obtain ⟨hroot, before, after, rfl, hbefore⟩ := List.find?_eq_some_iff_append.1 h
  have hnot : ∀ node ∈ before, ¬ (node.id == id) = true := by
    intro node hnode hid
    have hother := hbefore node hnode
    rw [hid] at hother
    contradiction
  rw [List.eraseP_append_right _ hnot,
    List.eraseP_cons_of_pos (p := fun node : OpenNode => node.id == id) hroot]
  exact List.perm_middle.symm

/-- A subgraph that has its root, and no node or edge twice, is turned into a context. -/
theorem exists_contextOf {id : String} {found : Subgraph} (hid : id ∈ found.ids)
    (hids : found.ids.Nodup) (hkeys : (found.edges.map Edge.key).Nodup) :
    ∃ result, contextOf id found = .ok result ∧ result.Reorders id found := by
  obtain ⟨node, hnode, rfl⟩ := List.mem_map.1 hid
  unfold contextOf
  cases hfind : found.nodes.find? (·.id == node.id) with
  | none =>
      have hmissing := List.find?_eq_none.1 hfind node hnode
      exact absurd (beq_self_eq_true node.id) hmissing
  | some root =>
      have hroot : root.id = node.id := by
        simpa using List.find?_some hfind
      have hperm := perm_of_find? hfind
      let rest := found.nodes.eraseP (·.id == node.id)
      have hsorted : (sortedBy nodeOrder rest).Perm rest := List.mergeSort_perm _ _
      have hapart : ((root :: rest).map Node.id).Nodup := (hperm.map Node.id).nodup_iff.2 hids
      obtain ⟨hother, hrest⟩ := List.nodup_cons.1 hapart
      refine ⟨_, rfl, hroot, ?_, ?_, ?_, List.mergeSort_perm _ _, ?_, rfl⟩
      · exact (hsorted.cons root).trans hperm
      · intro other hmem hsame
        have hlisted : other.id ∈ rest.map Node.id := List.mem_map_of_mem (hsorted.mem_iff.1 hmem)
        rw [hsame, ← hroot] at hlisted
        exact hother hlisted
      · exact (pairwise_lt_sortedBy id_eq_of_nodeOrder hrest).imp
          fun {a b} => (nodeOrder_eq_lt_iff a b).1
      · exact (pairwise_lt_sortedBy key_eq_of_edgeOrder hkeys).imp
          fun {a b} => (edgeOrder_eq_lt_iff a b).1

variable (e : Engine) {tenant : Tenant} {t : Tables}

/-- The root is found, and no node or edge is found twice. -/
theorem nodup_of_subgraphIn (ht : t.WellKeyed) (hvalid : e.config.IsValid) {root : String}
    {hops : Nat} {found : Subgraph} (h : e.subgraphIn tenant t.view root hops = .ok found) :
    root ∈ found.ids ∧ found.ids.Nodup ∧ (found.edges.map Edge.key).Nodup := by
  obtain ⟨ids, hspans⟩ := e.spans_of_subgraphIn ht hvalid h
  refine ⟨?_, ?_, ?_⟩
  · rw [hspans.nodes, List.mem_filter]
    exact ⟨List.mem_of_mem_head? hspans.first, hspans.stored⟩
  · rw [hspans.nodes]
    exact hspans.nodup.filter _
  · obtain ⟨node, _, h⟩ := exists_of_bind_eq_ok_except h
    split at h
    · cases h
      exact List.nodup_nil
    · obtain ⟨nodes, _, h⟩ := exists_of_bind_eq_ok_except h
      obtain ⟨edges, hedges, h⟩ := exists_of_bind_eq_ok_except h
      cases h
      show (edges.map Edge.key).Nodup
      rw [e.keys_of_openEdges hedges]
      exact ht.nodup_keys_edgesWithin _ _

/-! ## What is answered in time -/

open World (Steady)

theorem settles_context (id : String) (hops : Nat) :
    Action.SettlesIn (Steady tenant t) (e.context tenant id hops)
      (e.subgraphIn tenant t.view id (e.contextHops hops) >>= contextOf id) := by
  apply (e.settles_traverse id (e.contextHops hops)).bind
  intro found
  unfold contextOf
  cases found.nodes.find? (·.id == id) with
  | none => exact .throw _
  | some root => exact .pure _

/-- The hops of a context are those asked for, within bounds. -/
theorem contextHops_eq (hops : Nat) :
    e.contextHops hops = max 1 (min hops (max 1 e.config.traversal.contextMaxHops)) := by
  unfold contextHops
  omega

/-- Over every store that can come about and whose rows all open, with every valid configuration, for
every node and however many hops are asked for: while nobody else uses the store and no request
fails, the traversal with so many hops within their bounds and the context are answered always
alike, and the context reorders what the traversal finds. -/
theorem contexts_reorder_traversals (hvalid : e.config.validate = .ok ()) (store : Store)
    (hstore : store.Reached) (tenant : Tenant) (hopen : e.CanOpen tenant (store.tablesOf tenant))
    (id : String) (hid : id ∈ (store.tablesOf tenant).nodes) (asked : Nat) :
    let hops := max 1 (min asked (max 1 e.config.traversal.contextMaxHops))
    ∃ found result,
      AnsweredInTime World.clock (Steady tenant (store.tablesOf tenant))
        (e.traverse tenant id hops) found ∧
      AnsweredInTime World.clock (Steady tenant (store.tablesOf tenant))
        (e.context tenant id asked) result ∧
      e.nodeIn tenant (store.tablesOf tenant).view id = .ok result.root ∧
      result.Reorders id found := by
  intro hops
  have hconfig := (Config.validate_eq_ok_iff e.config).1 hvalid
  have ht := hstore.wellKeyed tenant
  obtain ⟨found, hfound⟩ := e.exists_subgraphIn hopen hid hops
  obtain ⟨hroot, hids, hkeys⟩ := e.nodup_of_subgraphIn ht hconfig hfound
  obtain ⟨result, hresult, hreorders⟩ := exists_contextOf hroot hids hkeys
  have htraverse : Action.SettlesIn (Steady tenant (store.tablesOf tenant))
      (e.traverse tenant id hops) _ := e.settles_traverse id hops
  have hcontext : Action.SettlesIn (Steady tenant (store.tablesOf tenant))
      (e.context tenant id asked) _ := e.settles_context id asked
  rw [hfound] at htraverse
  rw [contextHops_eq, hfound] at hcontext
  have hmem : result.root ∈ found.nodes := hreorders.nodes.mem_iff.1 List.mem_cons_self
  have hopened := (e.opens_of_subgraphIn ht hfound).nodes _ hmem
  rw [hreorders.root] at hopened
  refine ⟨found, result, htraverse.answeredInTime, ?_, hopened, hreorders⟩
  exact ComesTo.answeredInTime (hresult ▸ hcontext)

/-- Three nodes are joined to the root, one of them from its own side, and the root is joined to itself.
One of the three has a salience that is no number, and the other two are equally salient, as are all
edges. No hop is asked for, and one is made. -/
theorem contexts_reorder_traversals_with_equal_saliences :
    let e : Engine :=
      { nonce := fun _ => [], shuffle := fun _ ids => ids, shuffle_perm := fun _ _ => .refl _ }
    let acme : Tenant := ⟨"acme"⟩
    let node (id : String) (salience : Double) : SealedNode :=
      ⟨id, "concept", id, ⟨[0x7b, 0x7d]⟩, none, { (default : Relevance) with salience := salience }⟩
    let edge (a b : String) : SealedEdge := ⟨a, b, "next", 1.0, ⟨[0x7b, 0x7d]⟩, default⟩
    let nodes := [node "c" ⟨1⟩, node "a" ⟨0⟩, node "b" ⟨1⟩, node "d" ⟨0x7FF8000000000000⟩].foldl
      (fun tx row => tx.stageNode acme row.id (.put row)) (Store.begin {} .readWrite).1
    let tx := [edge "c" "a", edge "a" "d", edge "a" "a", edge "a" "b"].foldl
      (fun tx row => tx.stageEdge acme row.key (.put row)) nodes
    let w : World := { World.start {} default with store := Store.commit {} tx }
    let t := w.store.tablesOf acme
    e.config.validate = .ok () ∧ w.store.Reached ∧ e.CanOpen acme t ∧ "a" ∈ t.nodes ∧
      ∃ found result u v, e.traverse acme "a" 1 .unbounded w = .ok found u ∧
        e.context acme "a" 0 .unbounded w = .ok result v ∧ result.Reorders "a" found ∧
        found.ids = ["a", "b", "d", "c"] ∧ found.edges.map Edge.key =
          [⟨"a", "a", "next"⟩, ⟨"a", "b", "next"⟩, ⟨"a", "d", "next"⟩, ⟨"c", "a", "next"⟩] := by
  intro e acme node edge nodes tx w t
  have hvalid : e.config.validate = .ok () := by decide +kernel
  have hnodes : nodes.Made :=
    .staged {} (.putNode (node "d" ⟨0x7FF8000000000000⟩)) acme (.staged {} (.putNode (node "b" ⟨1⟩)) acme
      (.staged {} (.putNode (node "a" ⟨0⟩)) acme (.staged {} (.putNode (node "c" ⟨1⟩)) acme
        (.begun {} .readWrite) rfl) rfl) rfl) rfl
  have hmade : tx.Made :=
    .staged {} (.putEdge (edge "a" "b")) acme (.staged {} (.putEdge (edge "a" "a")) acme
      (.staged {} (.putEdge (edge "a" "d")) acme (.staged {} (.putEdge (edge "c" "a")) acme hnodes
        rfl) rfl) rfl) rfl
  have hstore : w.store.Reached := .committed (s := {}) (.empty rfl) hmade rfl
  have hids : t.nodes.keys = ["a", "b", "c", "d"] := by decide +kernel
  have hroot : "a" ∈ t.nodes := by
    rw [← Std.ExtTreeMap.mem_keys, hids]
    decide
  have hopen : e.CanOpen acme t := e.canOpen_of_isOk (by decide +kernel) (by decide +kernel)
  have hshape : (answer? (e.traverse acme "a" 1 .unbounded w)).map
      (fun found => (found.ids, found.edges.map Edge.key)) = some (["a", "b", "d", "c"],
        [⟨"a", "a", "next"⟩, ⟨"a", "b", "next"⟩, ⟨"a", "d", "next"⟩, ⟨"c", "a", "next"⟩]) := by
    decide +kernel
  obtain ⟨found, result, htraverse, hcontext, _, hreorders⟩ :=
    contexts_reorder_traversals e hvalid w.store hstore acme hopen "a" hroot 0
  have hsteady : Steady acme t w := ⟨rfl, fun _ _ => rfl, rfl⟩
  obtain ⟨u, hu⟩ := htraverse .unbounded w hsteady (Scope.check_unbounded _)
  obtain ⟨v, hv⟩ := hcontext .unbounded w hsteady (Scope.check_unbounded _)
  have hfound : e.traverse acme "a" 1 .unbounded w = .ok found u := hu
  rw [hfound] at hshape
  obtain ⟨hfoundids, hfoundkeys⟩ := Prod.mk.inj (Option.some.inj hshape)
  exact ⟨hvalid, hstore, hopen, hroot, found, result, u, v, hfound, hv, hreorders, hfoundids,
    hfoundkeys⟩

end Engine
end SalientGraph
