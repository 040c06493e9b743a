import SalientGraph.Proofs.Store.Overlay
import SalientGraph.Proofs.Ratings

/-!
# Steps along stored edges

A traversal goes from node to node along stored edges, in either direction. What it
reads to do so are short lists, cut off at limits, but whatever is on them is stored:
an edge under its own key, a node under its own identifier.
-/

namespace SalientGraph

/-- A stored edge leads from one of two nodes to the other, in either direction. -/
def Tables.Joins (t : Tables) (a b : String) : Prop :=
  ∃ relation : String, ⟨a, b, relation⟩ ∈ t.edges ∨ ⟨b, a, relation⟩ ∈ t.edges

/-- What can be reached from a root by so many steps at most. -/
inductive Reaches (joins : String → String → Prop) (root : String) : Nat → String → Prop where
  | root (hops : Nat) : Reaches joins root hops root
  | step {hops : Nat} {a b : String} (h : Reaches joins root hops a) (hjoins : joins a b) :
      Reaches joins root (hops + 1) b

theorem Tables.Joins.symm {t : Tables} {a b : String} (h : t.Joins a b) : t.Joins b a := by
  obtain ⟨relation, hforth | hback⟩ := h
  · exact ⟨relation, .inr hforth⟩
  · exact ⟨relation, .inl hback⟩

theorem Reaches.mono {joins : String → String → Prop} {root id : String} {hops more : Nat}
    (h : Reaches joins root hops id) (hle : hops ≤ more) : Reaches joins root more id := by
  induction h generalizing more with
  | root => exact .root more
  | step _ hjoins ih =>
      obtain ⟨less, rfl⟩ := Nat.exists_eq_add_of_le' (Nat.lt_of_lt_of_le (Nat.succ_pos _) hle)
      exact .step (ih (Nat.le_of_succ_le_succ hle)) hjoins

namespace View

theorem length_nodesOf_le (v : View) (ids : List String) (limit : Nat) :
    (v.nodesOf ids limit).length ≤ limit :=
  List.length_take_le limit _

/-- What is asked for by different identifiers is not cut off. -/
theorem nodesOf_of_nodup (v : View) {ids : List String} (hids : ids.Nodup) :
    v.nodesOf ids ids.length = ids.filterMap v.node? := by
  rw [← distinct_of_nodup hids]
  exact v.nodesOf_distinct ids

/-- Whether an identifier is in a set made of a list. -/
theorem contains_ofList (ids : List String) (id : String) :
    (Std.ExtTreeSet.ofList ids compare).contains id = true ↔ id ∈ ids := by
  rw [Std.ExtTreeSet.contains_ofList, List.contains_iff_mem]

/-- Whether both ends of an edge are among some nodes. -/
def joinsWithin (ids : List String) (row : SealedEdge) : Bool :=
  let inside := Std.ExtTreeSet.ofList ids compare
  inside.contains row.source && inside.contains row.target

theorem joinsWithin_iff {ids : List String} {row : SealedEdge} :
    joinsWithin ids row = true ↔ row.source ∈ ids ∧ row.target ∈ ids := by
  unfold joinsWithin
  rw [Bool.and_eq_true, contains_ofList, contains_ofList]

end View

namespace Tables.WellKeyed

variable {t : Tables} (ht : t.WellKeyed)
include ht

theorem mem_of_mem_edges {row : SealedEdge} (h : row ∈ t.view.edges) : row.key ∈ t.edges := by
  obtain ⟨key, hkey⟩ := View.mem_edges.1 h
  rw [View.edge?_view] at hkey
  rw [ht.edges hkey]
  exact Std.ExtTreeMap.mem_iff_isSome_getElem?.2 (by rw [hkey]; rfl)

/-- The ends of the edges that touch some nodes are joined, and one of the two is among the nodes. -/
theorem joins_of_mem_pairsTouching {ids : List String} {limit : Nat} {pair : String × String}
    (h : pair ∈ t.view.pairsTouching ids limit) :
    t.Joins pair.1 pair.2 ∧ (pair.1 ∈ ids ∨ pair.2 ∈ ids) := by
  obtain ⟨row, hrow, rfl⟩ := List.mem_map.1 h
  have hjoins : row ∈ t.view.edges → t.Joins row.source row.target := fun hmem =>
    ⟨row.relation, .inl (ht.mem_of_mem_edges hmem)⟩
  rcases List.mem_append.1 hrow with hout | hin
  · obtain ⟨hmem, hsource⟩ := View.mem_edges_of_mem_scanEdges hout
    exact ⟨hjoins hmem, .inl ((View.contains_ofList _ _).1 hsource)⟩
  · obtain ⟨hmem, htarget⟩ := View.mem_edges_of_mem_scanEdges hin
    exact ⟨hjoins hmem, .inr ((View.contains_ofList _ _).1 htarget)⟩

/-- The nodes that are asked for by different identifiers are those that there are, in order. -/
theorem map_id_nodesOf {ids : List String} (hids : ids.Nodup) :
    (t.view.nodesOf ids ids.length).map Node.id = ids.filter t.nodes.contains := by
  rw [View.nodesOf_of_nodup t.view hids]
  clear hids
  induction ids with
  | nil => rfl
  | cons id ids ih =>
      have hcontains := Std.ExtTreeMap.contains_eq_isSome_getElem? (t := t.nodes) (a := id)
      cases hrow : t.nodes[id]? with
      | none =>
          have hnone : t.view.node? id = none := (View.node?_view t id).trans hrow
          rw [hrow] at hcontains
          rw [List.filterMap_cons_none hnone, List.filter_cons_of_neg (by simp [hcontains]), ih]
      | some row =>
          have hsome : t.view.node? id = some row := (View.node?_view t id).trans hrow
          rw [hrow] at hcontains
          rw [List.filterMap_cons_some hsome, List.filter_cons_of_pos hcontains, List.map_cons, ih,
            ht.nodes hrow]

end Tables.WellKeyed
end SalientGraph
