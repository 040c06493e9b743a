import SalientGraph.Proofs.Beholding

/-!
# What is opened is what was found

Opening replaces a payload and nothing else, so that what is handed out has the
identifiers and keys of the stored rows, in the same order. Over a graph that stays as
it is, the catalog hands out the rows that are in this graph.
-/

namespace SalientGraph

/-- What an outcome is put together from, if it is put together. -/
theorem exists_of_bind_eq_ok_except {α β : Type} {outcome : Except Fault α}
    {next : α → Except Fault β} {b : β} (h : outcome >>= next = .ok b) :
    ∃ a, outcome = .ok a ∧ next a = .ok b := by
  cases outcome with
  | ok a => exact ⟨a, rfl, h⟩
  | error f => cases h

/-- What is kept of each element is kept of the whole list. -/
theorem map_eq_of_mapM_eq_ok {α β γ : Type} {f : α → Except Fault β} {before : α → γ}
    {after : β → γ} (hf : ∀ a b, f a = .ok b → after b = before a) {xs : List α} :
    ∀ {ys : List β}, xs.mapM f = .ok ys → ys.map after = xs.map before := by
  induction xs with
  | nil =>
      intro ys h
      cases h
      rfl
  | cons x xs ih =>
      intro ys h
      rw [List.mapM_cons] at h
      obtain ⟨y, hy, hrest⟩ := exists_of_bind_eq_ok_except h
      obtain ⟨more, hmore, hdone⟩ := exists_of_bind_eq_ok_except hrest
      cases hdone
      rw [List.map_cons, List.map_cons, hf x y hy, ih hmore]

/-- What is in the whole list was made of an element. -/
theorem exists_of_mem_mapM_eq_ok {α β : Type} {f : α → Except Fault β} {xs : List α} :
    ∀ {ys : List β}, xs.mapM f = .ok ys → ∀ y ∈ ys, ∃ x ∈ xs, f x = .ok y := by
  induction xs with
  | nil =>
      intro ys h y hy
      cases h
      exact (List.not_mem_nil hy).elim
  | cons x xs ih =>
      intro ys h y hy
      rw [List.mapM_cons] at h
      obtain ⟨first, hfirst, hrest⟩ := exists_of_bind_eq_ok_except h
      obtain ⟨more, hmore, hdone⟩ := exists_of_bind_eq_ok_except hrest
      cases hdone
      rcases List.mem_cons.1 hy with rfl | hy
      · exact ⟨x, List.mem_cons_self, hfirst⟩
      · obtain ⟨other, hother, heq⟩ := ih hmore y hy
        exact ⟨other, List.mem_cons_of_mem x hother, heq⟩

theorem exists_ok_of_isOk {α : Type} {r : Except Fault α} (h : r.isOk = true) :
    ∃ a, r = .ok a := by
  cases r with
  | ok a => exact ⟨a, rfl⟩
  | error f => contradiction

/-- A list of which every element can be opened can be opened as a whole. -/
theorem exists_mapM_eq_ok {α β : Type} {f : α → Except Fault β} {xs : List α}
    (h : ∀ x ∈ xs, ∃ y, f x = .ok y) : ∃ ys, xs.mapM f = .ok ys := by
  induction xs with
  | nil => exact ⟨[], rfl⟩
  | cons x xs ih =>
      obtain ⟨y, hy⟩ := h x List.mem_cons_self
      obtain ⟨ys, hys⟩ := ih fun other hother => h other (List.mem_cons_of_mem x hother)
      refine ⟨y :: ys, ?_⟩
      rw [List.mapM_cons, hy, hys]
      rfl

/-- What is opened first does not depend on what comes after it. -/
theorem prefix_of_mapM_eq_ok {α β : Type} {f : α → Except Fault β} {xs more : List α}
    {ys others : List β} (hfirst : xs <+: more) (h : xs.mapM f = .ok ys)
    (hmore : more.mapM f = .ok others) : ys <+: others := by
  obtain ⟨rest, rfl⟩ := hfirst
  rw [List.mapM_append] at hmore
  obtain ⟨early, hearly, hrest⟩ := exists_of_bind_eq_ok_except hmore
  obtain ⟨later, _, hdone⟩ := exists_of_bind_eq_ok_except hrest
  cases h.symm.trans hearly
  cases hdone
  exact List.prefix_append ys later

theorem mem_of_mapM_eq_ok {α β : Type} {f : α → Except Fault β} {xs : List α} {x : α} {y : β}
    (hx : x ∈ xs) (hy : f x = .ok y) : ∀ {ys : List β}, xs.mapM f = .ok ys → y ∈ ys := by
  induction xs with
  | nil => exact fun _ => (List.not_mem_nil hx).elim
  | cons first xs ih =>
      intro ys h
      rw [List.mapM_cons] at h
      obtain ⟨opened, hopened, hrest⟩ := exists_of_bind_eq_ok_except h
      obtain ⟨later, hlater, hdone⟩ := exists_of_bind_eq_ok_except hrest
      cases hdone
      rcases List.mem_cons.1 hx with rfl | hx
      · rw [hopened] at hy
        cases hy
        exact List.mem_cons_self
      · exact List.mem_cons_of_mem opened (ih hx hlater)

theorem subset_of_mapM_eq_ok {α β : Type} {f : α → Except Fault β} {xs more : List α}
    {ys others : List β} (hsubset : xs ⊆ more) (h : xs.mapM f = .ok ys)
    (hmore : more.mapM f = .ok others) : ys ⊆ others := by
  intro y hy
  obtain ⟨x, hx, hopened⟩ := exists_of_mem_mapM_eq_ok h y hy
  exact mem_of_mapM_eq_ok (hsubset hx) hopened hmore

namespace Engine

variable (e : Engine) {tenant : Tenant}

theorem id_of_openNode {row : SealedNode} {node : OpenNode} (h : e.openNode tenant row = .ok node) :
    node.id = row.id := by
  obtain ⟨properties, _, hdone⟩ := exists_of_bind_eq_ok_except h
  cases hdone
  rfl

/-- Where all nodes are listed, it is enough to open each of them. -/
theorem exists_openNode_of_isOk {t : Tables}
    (h : ∀ entry ∈ t.nodes.toList, (e.openNode tenant entry.2).isOk = true) (id : String)
    (row : SealedNode) (hrow : t.nodes[id]? = some row) : ∃ node, e.openNode tenant row = .ok node :=
  exists_ok_of_isOk (h (id, row) (Std.ExtTreeMap.mem_toList_iff_getElem?_eq_some.2 hrow))

theorem relevance_of_openNode {row : SealedNode} {node : OpenNode}
    (h : e.openNode tenant row = .ok node) : node.relevance = row.relevance := by
  obtain ⟨properties, _, hdone⟩ := exists_of_bind_eq_ok_except h
  cases hdone
  rfl

theorem key_of_openEdge {row : SealedEdge} {edge : OpenEdge} (h : e.openEdge tenant row = .ok edge) :
    edge.key = row.key := by
  obtain ⟨properties, _, hdone⟩ := exists_of_bind_eq_ok_except h
  cases hdone
  rfl

theorem ids_of_openNodes {rows : List SealedNode} {nodes : List OpenNode}
    (h : e.openNodes tenant rows = .ok nodes) : nodes.map Node.id = rows.map Node.id :=
  map_eq_of_mapM_eq_ok (fun _ _ => e.id_of_openNode) h

theorem keys_of_openEdges {rows : List SealedEdge} {edges : List OpenEdge}
    (h : e.openEdges tenant rows = .ok edges) : edges.map Edge.key = rows.map Edge.key :=
  map_eq_of_mapM_eq_ok (fun _ _ => e.key_of_openEdge) h

theorem ids_of_openCandidates {found : List Candidate} {hits : List ScoredNode}
    (h : e.openCandidates tenant found = .ok hits) :
    hits.map ScoredNode.id = found.map (·.node.id) := by
  refine map_eq_of_mapM_eq_ok ?_ h
  intro c hit hhit
  obtain ⟨node, hnode, hdone⟩ := exists_of_bind_eq_ok_except hhit
  cases hdone
  exact e.id_of_openNode hnode

/-! ## Over a graph that stays as it is -/

open TxAction (Finds finds_reading finds_ofOutcome finds_pairsTouching)

variable {v : View}

theorem finds_requireNode (id : String) :
    Finds tenant v (e.requireNode tenant id) fun node n =>
      n = 0 ∧ ∃ row, v.node? id = some row ∧ e.openNode tenant row = .ok node := by
  have hnode : Finds tenant v (e.node? tenant id) fun found n =>
      n = 0 ∧ ∀ node, found = some node →
        ∃ row, v.node? id = some row ∧ e.openNode tenant row = .ok node := by
    apply (finds_reading .node (·.node? id)).bind
    rintro row _ ⟨rfl, hrow⟩
    cases row with
    | none => exact .pure ⟨rfl, fun _ h => nomatch h⟩
    | some row =>
        apply (finds_ofOutcome (e.openNode tenant row)).bind
        rintro node _ ⟨rfl, hopen⟩
        refine .pure ⟨rfl, ?_⟩
        rintro _ ⟨⟩
        exact ⟨row, hrow, hopen⟩
  apply hnode.bind
  rintro found _ ⟨rfl, hfound⟩
  cases found with
  | none => exact .throw _
  | some node => exact .pure ⟨rfl, hfound node rfl⟩

theorem finds_hasNode (id : String) :
    Finds tenant v (TxAction.hasNode tenant id) fun present n =>
      n = 0 ∧ (v.node? id).isSome = present := by
  apply (finds_reading .node (·.node? id)).bind
  rintro row _ ⟨rfl, rfl⟩
  exact .pure ⟨rfl, rfl⟩

theorem finds_nodesInOrder (ids : List String) :
    Finds tenant v (e.nodesInOrder tenant ids) fun nodes n =>
      n = 0 ∧ e.openNodes tenant (v.nodesOf ids ids.length) = .ok nodes := by
  apply (finds_reading .nodes (·.nodesOf ids ids.length)).bind
  rintro rows _ ⟨rfl, rfl⟩
  apply (finds_ofOutcome _).weaken
  rintro nodes _ ⟨rfl, hopen⟩
  exact ⟨rfl, hopen⟩

/-- The edges of a list that is read off are opened. -/
theorem finds_openEdges (r : Request) (answer : View → List SealedEdge) :
    Finds tenant v
      (TxAction.reading r tenant answer >>= fun rows =>
        Action.inTransaction (Action.ofOutcome (e.openEdges tenant rows))) fun edges n =>
      n = 0 ∧ e.openEdges tenant (answer v) = .ok edges := by
  apply (finds_reading r answer).bind
  rintro rows _ ⟨rfl, rfl⟩
  apply (finds_ofOutcome _).weaken
  rintro nodes _ ⟨rfl, hopen⟩
  exact ⟨rfl, hopen⟩

theorem finds_edgesFrom (id : String) (limit : Nat) :
    Finds tenant v (e.edgesFrom tenant id limit) fun edges n =>
      n = 0 ∧ e.openEdges tenant (v.edgesFrom id limit) = .ok edges :=
  e.finds_openEdges .edgesFrom (·.edgesFrom id limit)

theorem finds_edgesTo (id : String) (limit : Nat) :
    Finds tenant v (e.edgesTo tenant id limit) fun edges n =>
      n = 0 ∧ e.openEdges tenant (v.edgesTo id limit) = .ok edges :=
  e.finds_openEdges .edgesTo (·.edgesTo id limit)

theorem finds_edgesWithin (ids : List String) (limit : Nat) :
    Finds tenant v (e.edgesWithin tenant ids limit) fun edges n =>
      n = 0 ∧ e.openEdges tenant (v.edgesWithin ids limit) = .ok edges :=
  e.finds_openEdges .edgesWithin (·.edgesWithin ids limit)

theorem finds_hop (frontier : List String) :
    Finds tenant v (e.hop tenant frontier) fun pairs n =>
      n = 1 ∧ v.pairsTouching frontier e.config.traversal.perHopEdgeLimit = pairs :=
  (finds_pairsTouching frontier _).step

end Engine
end SalientGraph
