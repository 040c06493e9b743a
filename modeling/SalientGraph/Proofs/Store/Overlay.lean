import SalientGraph.Proofs.Ranking

/-!
# Views and the tables they come to

A transaction sees the committed tables with its own writes laid over them. What it
would leave behind if it were published now are tables without anything staged, and
the two are the same graph: every key has the same row in both, and the same rows are
listed, the staged ones merely last. All questions but those that cut an unsorted list
off get the same answer from both, as long as every row is kept under its own key.
-/

namespace SalientGraph

namespace Staging

variable {κ ρ : Type} {order : κ → κ → Ordering} [Std.TransCmp order] [Rated ρ]

/-- The rows that a transaction sees, each with its key, in the order of `rows`. -/
def entries (staging : Staging κ ρ order) (table : Table κ ρ order) : List (κ × ρ) :=
  (table.toList.filter fun entry => !staging.contains entry.1)
    ++ staging.toList.filterMap fun entry => (entry.2.result table[entry.1]?).map (entry.1, ·)

theorem map_snd_entries (staging : Staging κ ρ order) (table : Table κ ρ order) :
    (staging.entries table).map (·.2) = staging.rows table := by
  have hstaged : ∀ entry : κ × Staged ρ,
      Option.map (·.2) ((entry.2.result table[entry.1]?).map (entry.1, ·))
        = entry.2.result table[entry.1]? := by
    intro entry
    rw [Option.map_map]
    exact Option.map_id_apply
  rw [entries, rows, List.map_append, List.map_filterMap]
  simp only [hstaged]

/-- Without anything staged, the rows are those of the table. -/
theorem rows_empty (table : Table κ ρ order) :
    (∅ : Staging κ ρ order).rows table = table.toList.map (·.2) := by
  have hstaged : (∅ : Staging κ ρ order).toList = [] :=
    Std.ExtTreeMap.toList_eq_nil_iff.2 rfl
  have hleft : table.toList.filter (fun entry => !(∅ : Staging κ ρ order).contains entry.1)
      = table.toList :=
    List.filter_eq_self.2 fun _ _ => by simp
  rw [rows, hstaged, hleft]
  exact List.append_nil _

theorem find?_empty (table : Table κ ρ order) (key : κ) :
    (∅ : Staging κ ρ order).find? table key = table[key]? := by
  simp [find?]

section
variable [Std.LawfulEqCmp order]

/-- Publishing nothing changes nothing. -/
@[simp] theorem publish_empty (table : Table κ ρ order) :
    (∅ : Staging κ ρ order).publish table = table := by
  apply Std.ExtTreeMap.ext_getElem?
  intro key
  rw [getElem?_publish, find?_empty]

theorem mem_entries {staging : Staging κ ρ order} {table : Table κ ρ order} {key : κ} {row : ρ} :
    (key, row) ∈ staging.entries table ↔ staging.find? table key = some row := by
  simp only [entries, List.mem_append, List.mem_filter, List.mem_filterMap, Prod.exists,
    Std.ExtTreeMap.mem_toList_iff_getElem?_eq_some, Option.map_eq_some_iff, Prod.mk.injEq,
    Std.ExtTreeMap.contains_eq_isSome_getElem?, find?]
  constructor
  · rintro (⟨hrow, hkey⟩ | ⟨_, s, hs, _, hrow, rfl, rfl⟩)
    · cases hs : staging[key]? with
      | none => exact hrow
      | some s => simp [hs] at hkey
    · rw [hs]
      exact hrow
  · intro hrow
    cases hs : staging[key]? with
    | none =>
        rw [hs] at hrow
        exact .inl ⟨hrow, rfl⟩
    | some s =>
        rw [hs] at hrow
        exact .inr ⟨key, s, hs, row, hrow, rfl, rfl⟩

/-- No key is listed twice: what is left alone is not staged. -/
theorem pairwise_entries (staging : Staging κ ρ order) (table : Table κ ρ order) :
    (staging.entries table).Pairwise fun a b => a.1 ≠ b.1 := by
  have hne : ∀ {a b : κ}, ¬ order a b = .eq → a ≠ b := by
    rintro a _ h rfl
    exact h Std.ReflCmp.compare_self
  rw [entries, List.pairwise_append]
  -- among those left alone, among those staged, and between the two
  refine ⟨?_, ?_, ?_⟩
  · exact (Std.ExtTreeMap.distinct_keys_toList.imp hne).filter _
  · rw [List.pairwise_filterMap]
    refine Std.ExtTreeMap.distinct_keys_toList.imp ?_
    intro a b hab x hx y hy
    obtain ⟨_, _, rfl⟩ := Option.map_eq_some_iff.1 hx
    obtain ⟨_, _, rfl⟩ := Option.map_eq_some_iff.1 hy
    exact hne hab
  · intro a ha b hb
    obtain ⟨⟨key, s⟩, hs, hrow⟩ := List.mem_filterMap.1 hb
    obtain ⟨_, _, rfl⟩ := Option.map_eq_some_iff.1 hrow
    rintro rfl
    have hleft := (List.mem_filter.1 ha).2
    rw [Std.ExtTreeMap.mem_toList_iff_getElem?_eq_some] at hs
    simp [Std.ExtTreeMap.contains_eq_isSome_getElem?, hs] at hleft

theorem nodup_entries (staging : Staging κ ρ order) (table : Table κ ρ order) :
    (staging.entries table).Nodup :=
  (pairwise_entries staging table).imp fun h heq => h (congrArg Prod.fst heq)

/-- The listed entries are those of the published table. -/
theorem entries_perm (staging : Staging κ ρ order) (table : Table κ ρ order) :
    (staging.entries table).Perm (staging.publish table).toList := by
  have hnodup : (staging.publish table).toList.Nodup := by
    refine Std.ExtTreeMap.distinct_keys_toList.imp ?_
    rintro a _ h rfl
    exact h Std.ReflCmp.compare_self
  apply (List.perm_ext_iff_of_nodup (nodup_entries _ _) hnodup).2
  rintro ⟨key, row⟩
  rw [mem_entries, Std.ExtTreeMap.mem_toList_iff_getElem?_eq_some, getElem?_publish]

/-- The listed rows are those of the published table. -/
theorem rows_perm (staging : Staging κ ρ order) (table : Table κ ρ order) :
    (staging.rows table).Perm ((staging.publish table).toList.map (·.2)) := by
  rw [← map_snd_entries]
  exact (entries_perm staging table).map _

end

end Staging

/-! ## Tables in which every row is kept under its own key -/

/-- Every node is kept under its identifier and every edge under its key. -/
structure Tables.WellKeyed (t : Tables) : Prop where
  nodes : ∀ {id : String} {row : SealedNode}, t.nodes[id]? = some row → row.id = id
  edges : ∀ {key : EdgeKey} {row : SealedEdge}, t.edges[key]? = some row → row.key = key

/-- The committed rows of all tenants are kept under their own keys. -/
def Store.WellKeyed (s : Store) : Prop :=
  ∀ tenant, (s.tablesOf tenant).WellKeyed

theorem Tables.wellKeyed_empty : ({} : Tables).WellKeyed := by
  constructor
  · intro id row h
    simp at h
  · intro key row h
    simp at h

/-! ## Views -/

/-- The tables as a transaction sees them that has staged nothing. -/
def Tables.view (t : Tables) : View :=
  ⟨t, {}⟩

namespace View

/-- The tables that a view comes to once everything staged is published. -/
def settled (v : View) : Tables :=
  v.changes.publish v.tables

/-- What two views have in common that differ in the order of their rows only. -/
structure Alike (v w : View) : Prop where
  node? : ∀ id, v.node? id = w.node? id
  edge? : ∀ key, v.edge? key = w.edge? key
  nodes : v.nodes.Perm w.nodes
  edges : v.edges.Perm w.edges

theorem node?_view (t : Tables) (id : String) : t.view.node? id = t.nodes[id]? :=
  Staging.find?_empty t.nodes id

theorem edge?_view (t : Tables) (key : EdgeKey) : t.view.edge? key = t.edges[key]? :=
  Staging.find?_empty t.edges key

theorem node?_eq_settled (v : View) (id : String) : v.node? id = v.settled.nodes[id]? :=
  (Staging.getElem?_publish v.changes.nodes v.tables.nodes id).symm

theorem edge?_eq_settled (v : View) (key : EdgeKey) : v.edge? key = v.settled.edges[key]? :=
  (Staging.getElem?_publish v.changes.edges v.tables.edges key).symm

/-- A view shows the graph of the tables that it comes to. -/
theorem alike_settled (v : View) : v.Alike v.settled.view where
  node? id := by rw [node?_eq_settled, node?_view]
  edge? key := by rw [edge?_eq_settled, edge?_view]
  nodes := by
    have h := Staging.rows_perm v.changes.nodes v.tables.nodes
    rwa [← Staging.rows_empty] at h
  edges := by
    have h := Staging.rows_perm v.changes.edges v.tables.edges
    rwa [← Staging.rows_empty] at h

theorem mem_nodes {v : View} {row : SealedNode} :
    row ∈ v.nodes ↔ ∃ id, v.node? id = some row :=
  Staging.mem_rows

theorem mem_edges {v : View} {row : SealedEdge} :
    row ∈ v.edges ↔ ∃ key, v.edge? key = some row :=
  Staging.mem_rows

/-- In a well-keyed view, a node is determined by its identifier. -/
theorem eq_of_id_eq {v : View} (hv : v.settled.WellKeyed) {a b : SealedNode} (ha : a ∈ v.nodes)
    (hb : b ∈ v.nodes) (h : a.id = b.id) : a = b := by
  obtain ⟨i, hi⟩ := mem_nodes.1 ha
  obtain ⟨j, hj⟩ := mem_nodes.1 hb
  rw [node?_eq_settled] at hi hj
  rw [← hv.nodes hi, h, hv.nodes hj] at hi
  exact Option.some.inj (hi.symm.trans hj)

/-! ## Answers of two views alike -/

/-- A node found by its embedding is the candidate's own node. -/
theorem node_eq_of_vectorCandidate? {embedding : List Single} {n : SealedNode} {c : Candidate}
    (h : vectorCandidate? embedding n = some c) : c.node = n := by
  simp only [vectorCandidate?, Option.bind_eq_bind, Option.bind_eq_some_iff] at h
  obtain ⟨own, _, h⟩ := h
  split at h
  · obtain ⟨cosine, _, h⟩ := Option.bind_eq_some_iff.1 h
    rw [← Option.some.inj h]
  · contradiction

namespace Alike

variable {v w : View}

theorem nodesAfter_eq (h : v.Alike w) (hv : v.settled.WellKeyed) (cursor : Option String)
    (limit : Nat) : v.nodesAfter cursor limit = w.nodesAfter cursor limit := by
  have htrans : Std.TransCmp fun a b : SealedNode => compare a.id b.id :=
    transCmp_on compare Node.id
  apply best_eq_of_perm limit (h.nodes.filter _)
  intro a ha b hb hab
  apply eq_of_id_eq hv (List.mem_filter.1 ha).1 (List.mem_filter.1 hb).1
  exact Std.LawfulEqOrd.eq_of_compare hab

theorem textCandidates_eq (h : v.Alike w) (hv : v.settled.WellKeyed) (q : TextQuery)
    (limit : Nat) : v.textCandidates q limit = w.textCandidates q limit := by
  simp only [textCandidates]
  split
  · rfl
  · apply best_eq_of_perm limit (((h.nodes.filter _).filter _).map _)
    intro a ha b hb hab
    obtain ⟨m, hm, rfl⟩ := List.mem_map.1 ha
    obtain ⟨n, hn, rfl⟩ := List.mem_map.1 hb
    simp only [Candidate.byTerms, Ordering.then_eq_eq, Std.LawfulEqOrd.compare_eq_iff_eq] at hab
    rw [eq_of_id_eq hv (List.mem_filter.1 (List.mem_filter.1 hm).1).1
      (List.mem_filter.1 (List.mem_filter.1 hn).1).1 hab.2.2]

theorem vectorCandidates_eq (h : v.Alike w) (hv : v.settled.WellKeyed) (embedding : List Single)
    (limit : Nat) : v.vectorCandidates embedding limit = w.vectorCandidates embedding limit := by
  apply best_eq_of_perm limit (h.nodes.filterMap _)
  intro a ha b hb hab
  obtain ⟨m, hm, ha⟩ := List.mem_filterMap.1 ha
  obtain ⟨n, hn, hb⟩ := List.mem_filterMap.1 hb
  simp only [Candidate.byCosine, Ordering.then_eq_eq, Std.LawfulEqOrd.compare_eq_iff_eq,
    node_eq_of_vectorCandidate? ha, node_eq_of_vectorCandidate? hb] at hab
  rw [eq_of_id_eq hv hm hn hab.2, hb] at ha
  exact (Option.some.inj ha).symm

end Alike

end View
end SalientGraph
