import SalientGraph.Proofs.Store.Transactions
import SalientGraph.Text.Blank

/-!
# Sound graphs

A graph is sound if its rows are kept under their own names, no name is blank, no weight
is anything but a finite number, and no edge dangles. Each write keeps a graph sound
under a condition of its own: a node may go only after its edges, and an edge may come
only between nodes that are there.
-/

namespace SalientGraph

/-- An edge by itself is in order, and its ends are there. -/
structure SoundEdge (node? : String → Option SealedNode) (row : SealedEdge) : Prop where
  related : Text.isBlank row.relation = false
  finite : row.weight.isFinite = true
  number : row.weight.isNaN = false
  source : (node? row.source).isSome = true
  target : (node? row.target).isSome = true

/-- The rows that two lookups find make a sound graph. -/
structure SoundGraph (node? : String → Option SealedNode)
    (edge? : EdgeKey → Option SealedEdge) : Prop where
  nodeKeyed : ∀ {id : String} {row : SealedNode}, node? id = some row → row.id = id
  edgeKeyed : ∀ {key : EdgeKey} {row : SealedEdge}, edge? key = some row → row.key = key
  named : ∀ {id : String} {row : SealedNode}, node? id = some row → Text.isBlank row.id = false
  edges : ∀ {key : EdgeKey} {row : SealedEdge}, edge? key = some row → SoundEdge node? row

/-- The committed graph of a tenant is sound. -/
def Tables.Sound (t : Tables) : Prop :=
  SoundGraph (fun id => t.nodes[id]?) (fun key => t.edges[key]?)

/-- No edge touches the node. -/
def Tables.Bare (t : Tables) (id : String) : Prop :=
  ∀ {key : EdgeKey} {row : SealedEdge}, t.edges[key]? = some row → row.touches id = false

/-- The graph that a transaction sees is sound. -/
def View.Sound (v : View) : Prop :=
  SoundGraph v.node? v.edge?

theorem View.sound_iff_settled (v : View) : v.Sound ↔ v.settled.Sound := by
  have hnode : v.node? = fun id => v.settled.nodes[id]? := funext v.node?_eq_settled
  have hedge : v.edge? = fun key => v.settled.edges[key]? := funext v.edge?_eq_settled
  rw [View.Sound, Tables.Sound, hnode, hedge]

/-- No edge that touches the node can be seen, neither by its key nor in a list. -/
structure View.Bare (v : View) (id : String) : Prop where
  found : ∀ {key : EdgeKey} {row : SealedEdge}, v.edge? key = some row → row.touches id = false
  listed : ∀ row ∈ v.edges, row.touches id = false

theorem View.bare_of_settled {v : View} {id : String} (h : v.settled.Bare id) : v.Bare id := by
  have hfound : ∀ {key : EdgeKey} {row : SealedEdge}, v.edge? key = some row →
      row.touches id = false := by
    intro key row hrow
    rw [v.edge?_eq_settled] at hrow
    exact h hrow
  refine ⟨hfound, ?_⟩
  intro row hrow
  obtain ⟨key, hkey⟩ := View.mem_edges.1 hrow
  exact hfound hkey

theorem Tables.sound_empty : ({} : Tables).Sound := by
  have hnode : ∀ {id : String} {row : SealedNode}, ¬ ({} : Tables).nodes[id]? = some row := by
    simp
  have hedge : ∀ {key : EdgeKey} {row : SealedEdge}, ¬ ({} : Tables).edges[key]? = some row := by
    simp
  exact ⟨fun h => (hnode h).elim, fun h => (hedge h).elim, fun h => (hnode h).elim,
    fun h => (hedge h).elim⟩

theorem Tables.Sound.wellKeyed {t : Tables} (h : t.Sound) : t.WellKeyed :=
  ⟨h.nodeKeyed, h.edgeKeyed⟩

/-- A finite number is a number. -/
theorem isNaN_eq_false_of_isFinite {x : Float} (h : x.isFinite = true) : x.isNaN = false := by
  have h' : x.toModel.unpack.isFinite = true := h
  show x.toModel.unpack.isNaN = false
  revert h'
  cases x.toModel.unpack with
  | notANumber =>
      intro h
      contradiction
  | infinity sign => exact fun _ => rfl
  | zero sign => exact fun _ => rfl
  | finite sign mantissa exponent pos => exact fun _ => rfl

namespace Tables.Sound

variable {t : Tables}

/-- Nodes may come and go as long as they are kept under names of their own and no edge loses an
end. -/
theorem of_nodes {nodes : Table String SealedNode compare} (h : t.Sound)
    (hkeyed : ∀ {id : String} {row : SealedNode}, nodes[id]? = some row → row.id = id)
    (hnamed : ∀ {id : String} {row : SealedNode}, nodes[id]? = some row →
      Text.isBlank row.id = false)
    (hends : ∀ {key : EdgeKey} {row : SealedEdge}, t.edges[key]? = some row →
      nodes[row.source]?.isSome = true ∧ nodes[row.target]?.isSome = true) :
    Tables.Sound { t with nodes := nodes } where
  nodeKeyed := hkeyed
  edgeKeyed := h.edgeKeyed
  named := hnamed
  edges hrow :=
    { h.edges hrow with
      source := (hends hrow).1
      target := (hends hrow).2 }

/-- Edges may go at any time, as long as the ones that stay are the same. -/
theorem of_edges {edges : Table EdgeKey SealedEdge EdgeKey.order} (h : t.Sound)
    (hedges : ∀ {key : EdgeKey} {row : SealedEdge}, edges[key]? = some row →
      t.edges[key]? = some row) : Tables.Sound { t with edges := edges } where
  nodeKeyed := h.nodeKeyed
  edgeKeyed hrow := h.edgeKeyed (hedges hrow)
  named := h.named
  edges hrow := h.edges (hedges hrow)

theorem putNode (h : t.Sound) {row : SealedNode} (hid : Text.isBlank row.id = false) :
    ((Write.putNode row).applyTo t).Sound := by
  have hstill : ∀ {id : String}, t.nodes[id]?.isSome = true →
      (t.nodes.insert row.id row)[id]?.isSome = true := by
    intro id hid
    rw [Std.ExtTreeMap.getElem?_insert]
    split
    · rfl
    · exact hid
  refine h.of_nodes (Write.wellKeyed_applyTo (.putNode row) h.wellKeyed).nodes ?_ ?_
  · intro id new hnew
    rw [Std.ExtTreeMap.getElem?_insert] at hnew
    split at hnew
    · rw [← Option.some.inj hnew]
      exact hid
    · exact h.named hnew
  · intro key edge hedge
    exact ⟨hstill (h.edges hedge).source, hstill (h.edges hedge).target⟩

/-- A node may be deleted once nothing touches it. -/
theorem deleteNode (h : t.Sound) {id : String} (hbare : t.Bare id) :
    ((Write.deleteNode id).applyTo t).Sound := by
  have hstill : ∀ {other : String}, other ≠ id → t.nodes[other]?.isSome = true →
      (t.nodes.erase id)[other]?.isSome = true := by
    intro other hne hother
    have hid : ¬ compare id other = .eq := fun heq => hne (Std.LawfulEqOrd.eq_of_compare heq).symm
    rw [Std.ExtTreeMap.getElem?_erase, if_neg hid]
    exact hother
  refine h.of_nodes (Write.wellKeyed_applyTo (.deleteNode id) h.wellKeyed).nodes ?_ ?_
  · intro other row hrow
    rw [Std.ExtTreeMap.getElem?_erase] at hrow
    split at hrow
    · contradiction
    · exact h.named hrow
  · -- no edge has the node at an end, so all keep their ends
    intro key edge hedge
    have hends := hbare hedge
    rw [Edge.touches, Bool.or_eq_false_iff, beq_eq_false_iff_ne, beq_eq_false_iff_ne] at hends
    exact ⟨hstill hends.1 (h.edges hedge).source, hstill hends.2 (h.edges hedge).target⟩

theorem updateNode (h : t.Sound) (id : String) (u : RelevanceUpdate) :
    ((Write.updateNode id u).applyTo t).Sound := by
  have hstill : ∀ {other : String}, t.nodes[other]?.isSome = true →
      (t.nodes.modify id u.applyTo)[other]?.isSome = true := by
    intro other hother
    rw [Std.ExtTreeMap.getElem?_modify]
    split
    · rename_i hid
      rw [Std.LawfulEqOrd.eq_of_compare hid, Option.isSome_map]
      exact hother
    · exact hother
  refine h.of_nodes (Write.wellKeyed_applyTo (.updateNode id u) h.wellKeyed).nodes ?_ ?_
  · intro other row hrow
    rw [Std.ExtTreeMap.getElem?_modify] at hrow
    split at hrow
    · obtain ⟨old, hold, rfl⟩ := Option.map_eq_some_iff.1 hrow
      rw [Node.id_applyTo]
      exact h.named hold
    · exact h.named hrow
  · intro key edge hedge
    exact ⟨hstill (h.edges hedge).source, hstill (h.edges hedge).target⟩

/-- An edge in order may be put between nodes that are there. -/
theorem putEdge (h : t.Sound) {row : SealedEdge} (hrow : SoundEdge (fun id => t.nodes[id]?) row) :
    ((Write.putEdge row).applyTo t).Sound := by
  refine ⟨h.nodeKeyed, (Write.wellKeyed_applyTo (.putEdge row) h.wellKeyed).edges, h.named, ?_⟩
  intro key edge hedge
  rw [Write.applyTo, Std.ExtTreeMap.getElem?_insert] at hedge
  split at hedge
  · rw [← Option.some.inj hedge]
    exact hrow
  · exact h.edges hedge

theorem deleteEdge (h : t.Sound) (key : EdgeKey) : ((Write.deleteEdge key).applyTo t).Sound := by
  apply h.of_edges
  intro other row hrow
  rw [Std.ExtTreeMap.getElem?_erase] at hrow
  split at hrow
  · contradiction
  · exact hrow

/-- An update leaves the ends, the relation and the weight of its edge as they were. -/
theorem updateEdge (h : t.Sound) (key : EdgeKey) (u : RelevanceUpdate) :
    ((Write.updateEdge key u).applyTo t).Sound := by
  refine ⟨h.nodeKeyed, (Write.wellKeyed_applyTo (.updateEdge key u) h.wellKeyed).edges,
    h.named, ?_⟩
  intro other row hrow
  rw [Write.applyTo, Std.ExtTreeMap.getElem?_modify] at hrow
  split at hrow
  · obtain ⟨old, hold, rfl⟩ := Option.map_eq_some_iff.1 hrow
    have hsound := h.edges hold
    exact ⟨hsound.related, hsound.finite, hsound.number, hsound.source, hsound.target⟩
  · exact h.edges hrow

theorem deleteEdgesTouching (h : t.Sound) (id : String) :
    ((Write.deleteEdgesTouching id).applyTo t).Sound := by
  apply h.of_edges
  intro key row hrow
  rw [Std.ExtTreeMap.getElem?_filter'] at hrow
  exact (Option.filter_eq_some_iff.1 hrow).1

end Tables.Sound

/-- Once the edges that touch a node have been removed, none does. -/
theorem Tables.bare_deleteEdgesTouching (t : Tables) (id : String) :
    ((Write.deleteEdgesTouching id).applyTo t).Bare id := by
  intro key row h
  rw [Write.applyTo, Std.ExtTreeMap.getElem?_filter'] at h
  simpa using (Option.filter_eq_some_iff.1 h).2

end SalientGraph
