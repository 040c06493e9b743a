import SalientGraph.Proofs.Store.Overlay

/-!
# Staged writes and direct ones

Each write has a direct meaning on the tables of a tenant: what it answers there and
what it makes of them. Staged in a transaction, it answers the same, as if all writes
staged before it had been made at once, and the tables that the transaction comes to
are those after it. Committing makes exactly these tables.
-/

namespace SalientGraph

/-- A write in the graph of a tenant. -/
inductive Write where
  | putNode (row : SealedNode)
  | deleteNode (id : String)
  | updateNode (id : String) (u : RelevanceUpdate)
  | putEdge (row : SealedEdge)
  | deleteEdge (key : EdgeKey)
  | updateEdge (key : EdgeKey) (u : RelevanceUpdate)
  | deleteEdgesTouching (id : String)

/-- What a write answers: nothing, whether there was such an entry, or how many there were. -/
inductive Write.Answer where
  | done
  | found (present : Bool)
  | removed (number : Nat)
deriving DecidableEq

namespace Write

/-- The answer of the write in some tables. -/
def answer (w : Write) (t : Tables) : Answer :=
  match w with
  | putNode _ => .done
  | deleteNode id => .found (t.nodes.contains id)
  | updateNode id _ => .found (t.nodes.contains id)
  | putEdge _ => .done
  | deleteEdge key => .found (t.edges.contains key)
  | updateEdge key _ => .found (t.edges.contains key)
  | deleteEdgesTouching id => .removed (t.edges.filter fun _ row => row.touches id).size

/-- The tables after the write. -/
def applyTo (w : Write) (t : Tables) : Tables :=
  match w with
  | putNode row => { t with nodes := t.nodes.insert row.id row }
  | deleteNode id => { t with nodes := t.nodes.erase id }
  | updateNode id u => { t with nodes := t.nodes.modify id u.applyTo }
  | putEdge row => { t with edges := t.edges.insert row.key row }
  | deleteEdge key => { t with edges := t.edges.erase key }
  | updateEdge key u => { t with edges := t.edges.modify key u.applyTo }
  | deleteEdgesTouching id => { t with edges := t.edges.filter fun _ row => !row.touches id }

/-- The write staged in a transaction. -/
def stage (w : Write) (s : Store) (tx : Transaction) (tenant : Tenant) :
    Except Fault (Answer × Transaction) :=
  match w with
  | putNode row => (Store.putNode tx tenant row).map (.done, ·)
  | deleteNode id => (s.deleteNode tx tenant id).map fun r => (.found r.1, r.2)
  | updateNode id u => (s.updateNode tx tenant id u).map fun r => (.found r.1, r.2)
  | putEdge row => (Store.putEdge tx tenant row).map (.done, ·)
  | deleteEdge key => (s.deleteEdge tx tenant key).map fun r => (.found r.1, r.2)
  | updateEdge key u => (s.updateEdge tx tenant key u).map fun r => (.found r.1, r.2)
  | deleteEdgesTouching id =>
    (s.deleteEdgesTouching tx tenant id).map fun r => (.removed r.1, r.2)

/-- What a session asks of the store stages the write, and has its answer in another form. -/
def StagedBy {α : Type} (w : Write) (tenant : Tenant) (form : α → Answer)
    (write : Store → Transaction → Except Fault (α × Transaction)) : Prop :=
  ∀ s tx, w.stage s tx tenant = (write s tx).map fun r => (form r.1, r.2)

theorem StagedBy.stage_eq_ok {α : Type} {w : Write} {tenant : Tenant} {form : α → Answer}
    {write : Store → Transaction → Except Fault (α × Transaction)}
    (h : w.StagedBy tenant form write) {s : Store} {tx tx' : Transaction} {a : α}
    (hrun : write s tx = .ok (a, tx')) : w.stage s tx tenant = .ok (form a, tx') := by
  rw [h, hrun]
  rfl

/-- A write without an answer of its own. -/
theorem map_done_eq (outcome : Except Fault Transaction) :
    outcome.map (Answer.done, ·) =
      (do return ((), ← outcome) : Except Fault (Unit × Transaction)).map
        fun r => (Answer.done, r.2) := by
  cases outcome <;> rfl

theorem stagedBy_putNode (tenant : Tenant) (row : SealedNode) :
    (putNode row).StagedBy tenant (fun _ => .done)
      fun _ tx => return ((), ← Store.putNode tx tenant row) :=
  fun _ _ => map_done_eq _

theorem stagedBy_putEdge (tenant : Tenant) (row : SealedEdge) :
    (putEdge row).StagedBy tenant (fun _ => .done)
      fun _ tx => return ((), ← Store.putEdge tx tenant row) :=
  fun _ _ => map_done_eq _

end Write

/-! ## Publishing what was staged -/

namespace Staging

variable {κ ρ : Type} {order : κ → κ → Ordering} [Std.TransCmp order] [Std.LawfulEqCmp order]
  [Rated ρ]

/-- A row after one more write has been staged, for whatever key. -/
theorem find?_insert (staging : Staging κ ρ order) (table : Table κ ρ order) (key other : κ)
    (s : Staged ρ) :
    find? (staging.insert key s) table other =
      if order key other = .eq then s.result table[other]? else find? staging table other := by
  by_cases h : order key other = .eq
  · have hkey := Std.LawfulEqCmp.eq_of_compare h
    subst hkey
    rw [if_pos h, find?_insert_self]
  · rw [if_neg h, find?_insert_of_ne _ _ _ h]

theorem publish_insert_put (staging : Staging κ ρ order) (table : Table κ ρ order) (key : κ)
    (row : ρ) :
    publish (staging.insert key (.put row)) table = (publish staging table).insert key row := by
  apply Std.ExtTreeMap.ext_getElem?
  intro other
  rw [getElem?_publish, find?_insert, Std.ExtTreeMap.getElem?_insert, getElem?_publish]
  rfl

theorem publish_insert_delete (staging : Staging κ ρ order) (table : Table κ ρ order) (key : κ) :
    publish (staging.insert key .delete) table = (publish staging table).erase key := by
  apply Std.ExtTreeMap.ext_getElem?
  intro other
  rw [getElem?_publish, find?_insert, Std.ExtTreeMap.getElem?_erase, getElem?_publish]
  rfl

theorem publish_stageUpdate (staging : Staging κ ρ order) (table : Table κ ρ order) (key : κ)
    (u : RelevanceUpdate) :
    publish (staging.stageUpdate key u) table = (publish staging table).modify key u.applyTo := by
  apply Std.ExtTreeMap.ext_getElem?
  intro other
  rw [Std.ExtTreeMap.getElem?_modify, getElem?_publish]
  by_cases h : order key other = .eq
  · have hkey := Std.LawfulEqCmp.eq_of_compare h
    subst hkey
    rw [if_pos h, getElem?_publish, find?_stageUpdate_self]
  · rw [if_neg h, getElem?_publish, stageUpdate, find?_insert_of_ne _ _ _ h]

/-- Several removals staged one after another remove the rows of all their keys. -/
theorem find?_foldl_delete [DecidableEq κ] (keys : List κ) :
    ∀ (staging : Staging κ ρ order) (table : Table κ ρ order) (key : κ),
      find? (keys.foldl (fun staging k => staging.insert k .delete) staging) table key =
        if key ∈ keys then none else find? staging table key := by
  induction keys with
  | nil =>
      intro staging table key
      simp
  | cons k keys ih =>
      intro staging table key
      rw [List.foldl_cons, ih, find?_insert]
      -- a key that is removed later on may or may not be removed now
      by_cases hmem : key ∈ keys
      · rw [if_pos hmem, if_pos (List.mem_cons_of_mem k hmem)]
      · rw [if_neg hmem]
        by_cases hk : order k key = .eq
        · have hkey := Std.LawfulEqCmp.eq_of_compare hk
          rw [if_pos hk, if_pos (hkey ▸ List.mem_cons_self)]
          rfl
        · have hne : key ∉ k :: keys := by
            rw [List.mem_cons, not_or]
            refine ⟨?_, hmem⟩
            rintro rfl
            exact hk Std.ReflCmp.compare_self
          rw [if_neg hk, if_neg hne]

omit [Std.LawfulEqCmp order] in
/-- A key without a row has none either over a table with fewer keys. -/
theorem find?_eq_none_of_getElem?_eq_none {staging : Staging κ ρ order}
    {table smaller : Table κ ρ order} {key : κ} (h : find? staging table key = none)
    (hkeys : table[key]? = none → smaller[key]? = none) :
    find? staging smaller key = none := by
  unfold find? at h ⊢
  cases hs : staging[key]? with
  | none =>
      rw [hs] at h
      exact hkeys h
  | some s =>
      rw [hs] at h
      cases s with
      | put row => contradiction
      | delete => rfl
      | update changes =>
          have hrow : table[key]? = none := Option.map_eq_none_iff.1 h
          exact Option.map_eq_none_iff.2 (hkeys hrow)

end Staging

namespace Table

variable {κ ρ : Type} {order : κ → κ → Ordering} [Std.TransCmp order] [Std.LawfulEqCmp order]

/-- To erase what is not there changes nothing. -/
theorem erase_eq_self {table : Table κ ρ order} {key : κ} (h : table[key]? = none) :
    Std.ExtTreeMap.erase table key = table := by
  apply Std.ExtTreeMap.ext_getElem?
  intro other
  rw [Std.ExtTreeMap.getElem?_erase]
  split
  · rename_i hk
    rw [← Std.LawfulEqCmp.eq_of_compare hk, h]
  · rfl

/-- To change what is not there changes nothing. -/
theorem modify_eq_self {table : Table κ ρ order} {key : κ} (f : ρ → ρ) (h : table[key]? = none) :
    Std.ExtTreeMap.modify table key f = table := by
  apply Std.ExtTreeMap.ext_getElem?
  intro other
  rw [Std.ExtTreeMap.getElem?_modify]
  split
  · rename_i hk
    rw [← Std.LawfulEqCmp.eq_of_compare hk, h]
    rfl
  · rfl

end Table

/-! ## The tables of a tenant -/

/-- The tables have no keys but those of others. -/
structure Tables.Within (t larger : Tables) : Prop where
  nodes : ∀ {id : String}, larger.nodes[id]? = none → t.nodes[id]? = none
  edges : ∀ {key : EdgeKey}, larger.edges[key]? = none → t.edges[key]? = none

theorem Tables.Within.refl (t : Tables) : t.Within t :=
  ⟨id, id⟩

theorem Tables.Within.trans {t middle larger : Tables} (h : t.Within middle)
    (h' : middle.Within larger) : t.Within larger :=
  ⟨fun hn => h.nodes (h'.nodes hn), fun hn => h.edges (h'.edges hn)⟩

namespace Transaction

@[simp] theorem changesOf_mapNodes_self (tx : Transaction) (tenant : Tenant)
    (f : Staging String SealedNode compare → Staging String SealedNode compare) :
    (tx.mapNodes tenant f).changesOf tenant =
      { tx.changesOf tenant with nodes := f (tx.changesOf tenant).nodes } := by
  simp [mapNodes, changesOf]

@[simp] theorem changesOf_mapEdges_self (tx : Transaction) (tenant : Tenant)
    (f : Staging EdgeKey SealedEdge EdgeKey.order → Staging EdgeKey SealedEdge EdgeKey.order) :
    (tx.mapEdges tenant f).changesOf tenant =
      { tx.changesOf tenant with edges := f (tx.changesOf tenant).edges } := by
  simp [mapEdges, changesOf]

theorem changesOf_insert_of_ne (tx : Transaction) {tenant other : Tenant} (c : Changes)
    (h : other ≠ tenant) :
    changesOf { tx with changes := tx.changes.insert tenant c } other = tx.changesOf other := by
  have hne : Tenant.order tenant other ≠ .eq := fun heq =>
    h (Std.LawfulEqCmp.eq_of_compare heq).symm
  simp [changesOf, Std.ExtTreeMap.getD_insert, hne]

theorem changesOf_mapNodes_of_ne (tx : Transaction) {tenant other : Tenant}
    (f : Staging String SealedNode compare → Staging String SealedNode compare)
    (h : other ≠ tenant) : (tx.mapNodes tenant f).changesOf other = tx.changesOf other :=
  changesOf_insert_of_ne tx _ h

theorem changesOf_mapEdges_of_ne (tx : Transaction) {tenant other : Tenant}
    (f : Staging EdgeKey SealedEdge EdgeKey.order → Staging EdgeKey SealedEdge EdgeKey.order)
    (h : other ≠ tenant) : (tx.mapEdges tenant f).changesOf other = tx.changesOf other :=
  changesOf_insert_of_ne tx _ h

theorem checkWritable_eq_ok {tx : Transaction} (h : tx.access.isWritable = true) :
    tx.checkWritable = .ok () := by
  simp [checkWritable, h]

end Transaction

/-! ## Staging -/

/-- `tx'` is `tx` with a write staged for a tenant. Published over the committed tables or over what
is left of them, it leaves what the write makes of the tables without it. -/
structure Store.Stages (s : Store) (w : Write) (tenant : Tenant) (tx tx' : Transaction) : Prop where
  access : tx'.access = tx.access
  others : ∀ other, other ≠ tenant → tx'.changesOf other = tx.changesOf other
  publish : ∀ t : Tables, t.Within (s.tablesOf tenant) →
    ((tx.changesOf tenant).publish t).WellKeyed →
      (tx'.changesOf tenant).publish t = w.applyTo ((tx.changesOf tenant).publish t)

namespace Write

variable {s : Store} {tx : Transaction} {tenant : Tenant}

/-- A write is staged only in a transaction for writing. -/
theorem isWritable_of_stage {w : Write} {r : Answer × Transaction}
    (h : w.stage s tx tenant = .ok r) :
    tx.access.isWritable = true := by
  rcases hwritable : tx.access.isWritable with _ | _
  · have hrefused : tx.checkWritable =
        .error (.storage ("write attempted in read-only transaction " ++ tx.id.text)) := by
      simp [Transaction.checkWritable, hwritable]
    cases w <;> simp [stage, Store.putNode, Store.deleteNode, Store.updateNode,
      Store.putEdge, Store.deleteEdge, Store.updateEdge, Store.deleteEdgesTouching, hrefused, bind,
      Except.bind, Except.map] at h
  · rfl

theorem stage_putNode (hw : tx.access.isWritable = true) (row : SealedNode) :
    (putNode row).stage s tx tenant = .ok (.done, tx.stageNode tenant row.id (.put row)) ∧
      s.Stages (putNode row) tenant tx (tx.stageNode tenant row.id (.put row)) := by
  refine ⟨?_, ?_, ?_, ?_⟩
  · simp [stage, Store.putNode, Transaction.checkWritable_eq_ok hw, bind, Except.bind, pure,
      Except.pure, Except.map]
  · rfl
  · exact fun other h => Transaction.changesOf_mapNodes_of_ne tx _ h
  · intro t _ _
    simp [Transaction.stageNode, Changes.publish, Staging.publish_insert_put, applyTo]

theorem stage_putEdge (hw : tx.access.isWritable = true) (row : SealedEdge) :
    (putEdge row).stage s tx tenant = .ok (.done, tx.stageEdge tenant row.key (.put row)) ∧
      s.Stages (putEdge row) tenant tx (tx.stageEdge tenant row.key (.put row)) := by
  refine ⟨?_, ?_, ?_, ?_⟩
  · simp [stage, Store.putEdge, Transaction.checkWritable_eq_ok hw, bind, Except.bind, pure,
      Except.pure, Except.map]
  · rfl
  · exact fun other h => Transaction.changesOf_mapEdges_of_ne tx _ h
  · intro t _ _
    simp [Transaction.stageEdge, Changes.publish, Staging.publish_insert_put, applyTo]

/-- A write to a node that is not there is not staged, and would change nothing. -/
theorem stages_self_of_node?_eq_none {w : Write} {id : String}
    (hnode : (s.view tx tenant).node? id = none)
    (happly : ∀ t : Tables, t.nodes[id]? = none → w.applyTo t = t) :
    s.Stages w tenant tx tx := by
  refine ⟨rfl, fun _ _ => rfl, ?_⟩
  intro t ht _
  have hgone : ((tx.changesOf tenant).publish t).nodes[id]? = none := by
    rw [Changes.publish, Staging.getElem?_publish]
    exact Staging.find?_eq_none_of_getElem?_eq_none hnode ht.nodes
  exact (happly _ hgone).symm

/-- A write to an edge that is not there is not staged, and would change nothing. -/
theorem stages_self_of_edge?_eq_none {w : Write} {key : EdgeKey}
    (hedge : (s.view tx tenant).edge? key = none)
    (happly : ∀ t : Tables, t.edges[key]? = none → w.applyTo t = t) :
    s.Stages w tenant tx tx := by
  refine ⟨rfl, fun _ _ => rfl, ?_⟩
  intro t ht _
  have hgone : ((tx.changesOf tenant).publish t).edges[key]? = none := by
    rw [Changes.publish, Staging.getElem?_publish]
    exact Staging.find?_eq_none_of_getElem?_eq_none hedge ht.edges
  exact (happly _ hgone).symm

theorem contains_settled_nodes (id : String) :
    (s.view tx tenant).settled.nodes.contains id = ((s.view tx tenant).node? id).isSome := by
  rw [Std.ExtTreeMap.contains_eq_isSome_getElem?, View.node?_eq_settled]

theorem contains_settled_edges (key : EdgeKey) :
    (s.view tx tenant).settled.edges.contains key = ((s.view tx tenant).edge? key).isSome := by
  rw [Std.ExtTreeMap.contains_eq_isSome_getElem?, View.edge?_eq_settled]

theorem stage_deleteNode (hw : tx.access.isWritable = true) (id : String) :
    ∃ tx', (deleteNode id).stage s tx tenant
        = .ok ((deleteNode id).answer (s.view tx tenant).settled, tx') ∧
      s.Stages (deleteNode id) tenant tx tx' := by
  cases hnode : (s.view tx tenant).node? id with
  | none =>
      refine ⟨tx, ?_, stages_self_of_node?_eq_none hnode ?_⟩
      · simp [stage, Store.deleteNode, Transaction.checkWritable_eq_ok hw, bind, Except.bind, pure,
          Except.pure, Except.map, answer, contains_settled_nodes, hnode]
      · intro t ht
        simp only [applyTo, Table.erase_eq_self ht]
  | some row =>
      refine ⟨tx.stageNode tenant id .delete, ?_, rfl, ?_, ?_⟩
      · simp [stage, Store.deleteNode, Transaction.checkWritable_eq_ok hw, bind, Except.bind, pure,
          Except.pure, Except.map, answer, contains_settled_nodes, hnode]
      · exact fun other h => Transaction.changesOf_mapNodes_of_ne tx _ h
      · intro t _ _
        simp [Transaction.stageNode, Changes.publish, Staging.publish_insert_delete, applyTo]

theorem stage_updateNode (hw : tx.access.isWritable = true) (id : String) (u : RelevanceUpdate) :
    ∃ tx', (updateNode id u).stage s tx tenant
        = .ok ((updateNode id u).answer (s.view tx tenant).settled, tx') ∧
      s.Stages (updateNode id u) tenant tx tx' := by
  cases hnode : (s.view tx tenant).node? id with
  | none =>
      refine ⟨tx, ?_, stages_self_of_node?_eq_none hnode ?_⟩
      · simp [stage, Store.updateNode, Transaction.checkWritable_eq_ok hw, bind, Except.bind, pure,
          Except.pure, Except.map, answer, contains_settled_nodes, hnode]
      · intro t ht
        simp only [applyTo, Table.modify_eq_self _ ht]
  | some row =>
      refine ⟨tx.mapNodes tenant (·.stageUpdate id u), ?_, rfl, ?_, ?_⟩
      · simp [stage, Store.updateNode, Transaction.checkWritable_eq_ok hw, bind, Except.bind, pure,
          Except.pure, Except.map, answer, contains_settled_nodes, hnode]
      · exact fun other h => Transaction.changesOf_mapNodes_of_ne tx _ h
      · intro t _ _
        simp [Changes.publish, Staging.publish_stageUpdate, applyTo]

theorem stage_deleteEdge (hw : tx.access.isWritable = true) (key : EdgeKey) :
    ∃ tx', (deleteEdge key).stage s tx tenant
        = .ok ((deleteEdge key).answer (s.view tx tenant).settled, tx') ∧
      s.Stages (deleteEdge key) tenant tx tx' := by
  cases hedge : (s.view tx tenant).edge? key with
  | none =>
      refine ⟨tx, ?_, stages_self_of_edge?_eq_none hedge ?_⟩
      · simp [stage, Store.deleteEdge, Transaction.checkWritable_eq_ok hw, bind, Except.bind, pure,
          Except.pure, Except.map, answer, contains_settled_edges, hedge]
      · intro t ht
        simp only [applyTo, Table.erase_eq_self ht]
  | some row =>
      refine ⟨tx.stageEdge tenant key .delete, ?_, rfl, ?_, ?_⟩
      · simp [stage, Store.deleteEdge, Transaction.checkWritable_eq_ok hw, bind, Except.bind, pure,
          Except.pure, Except.map, answer, contains_settled_edges, hedge]
      · exact fun other h => Transaction.changesOf_mapEdges_of_ne tx _ h
      · intro t _ _
        simp [Transaction.stageEdge, Changes.publish, Staging.publish_insert_delete, applyTo]

theorem stage_updateEdge (hw : tx.access.isWritable = true) (key : EdgeKey) (u : RelevanceUpdate) :
    ∃ tx', (updateEdge key u).stage s tx tenant
        = .ok ((updateEdge key u).answer (s.view tx tenant).settled, tx') ∧
      s.Stages (updateEdge key u) tenant tx tx' := by
  cases hedge : (s.view tx tenant).edge? key with
  | none =>
      refine ⟨tx, ?_, stages_self_of_edge?_eq_none hedge ?_⟩
      · simp [stage, Store.updateEdge, Transaction.checkWritable_eq_ok hw, bind, Except.bind, pure,
          Except.pure, Except.map, answer, contains_settled_edges, hedge]
      · intro t ht
        simp only [applyTo, Table.modify_eq_self _ ht]
  | some row =>
      refine ⟨tx.mapEdges tenant (·.stageUpdate key u), ?_, rfl, ?_, ?_⟩
      · simp [stage, Store.updateEdge, Transaction.checkWritable_eq_ok hw, bind, Except.bind, pure,
          Except.pure, Except.map, answer, contains_settled_edges, hedge]
      · exact fun other h => Transaction.changesOf_mapEdges_of_ne tx _ h
      · intro t _ _
        simp [Changes.publish, Staging.publish_stageUpdate, applyTo]

/-! ### Removing the edges of a node -/

theorem touches_iff_key {π : Type} (row : Edge π) (id : String) :
    row.touches id = true ↔ row.key.source = id ∨ row.key.target = id := by
  simp [Edge.touches, Edge.key]

/-- Removals of edges staged one after another are so many in the staging of the tenant. -/
theorem changesOf_foldl_stageEdge (doomed : List SealedEdge) :
    ∀ tx : Transaction,
      (doomed.foldl (fun tx e => tx.stageEdge tenant e.key .delete) tx).changesOf tenant =
        { tx.changesOf tenant with
          edges := (doomed.map Edge.key).foldl (fun staging k => staging.insert k .delete)
            (tx.changesOf tenant).edges } := by
  induction doomed with
  | nil => intro tx; rfl
  | cons e doomed ih =>
      intro tx
      rw [List.foldl_cons, ih, Transaction.stageEdge, Transaction.changesOf_mapEdges_self]
      rfl

theorem foldl_stageEdge_others (tenant : Tenant) (doomed : List SealedEdge) :
    ∀ tx : Transaction,
      (doomed.foldl (fun tx e => tx.stageEdge tenant e.key .delete) tx).access = tx.access ∧
        ∀ other, other ≠ tenant →
          (doomed.foldl (fun tx e => tx.stageEdge tenant e.key .delete) tx).changesOf other =
            tx.changesOf other := by
  induction doomed with
  | nil => exact fun tx => ⟨rfl, fun _ _ => rfl⟩
  | cons e doomed ih =>
      intro tx
      obtain ⟨haccess, hothers⟩ := ih (tx.stageEdge tenant e.key .delete)
      refine ⟨haccess, ?_⟩
      intro other h
      rw [List.foldl_cons, hothers other h]
      exact Transaction.changesOf_mapEdges_of_ne tx _ h

/-- As many edges touch a node in a view as in the tables that it comes to. -/
theorem length_filter_edges (v : View) (keep : SealedEdge → Bool) :
    (v.edges.filter keep).length = (v.settled.edges.filter fun _ row => keep row).size := by
  have hperm := v.alike_settled.edges.filter keep
  rw [hperm.length_eq, ← Std.ExtTreeMap.length_toList, Std.ExtTreeMap.toList_filter]
  show (((∅ : Staging EdgeKey SealedEdge EdgeKey.order).rows v.settled.edges).filter keep).length
    = _
  rw [Staging.rows_empty, List.filter_map, List.length_map]
  rfl

theorem stage_deleteEdgesTouching_eq (hw : tx.access.isWritable = true) (id : String) :
    (deleteEdgesTouching id).stage s tx tenant =
      .ok ((deleteEdgesTouching id).answer (s.view tx tenant).settled,
        ((s.view tx tenant).edges.filter (·.touches id)).foldl
          (fun tx e => tx.stageEdge tenant e.key .delete) tx) := by
  rw [answer, ← length_filter_edges, stage, Store.deleteEdgesTouching,
    Transaction.checkWritable_eq_ok hw]
  rfl

/-- The edges that touch a node go, whether they were committed, left over or staged. -/
theorem find?_without_touching (hk : (s.view tx tenant).settled.WellKeyed) (id : String)
    {t : Tables} (ht : t.Within (s.tablesOf tenant))
    (hkeyed : ((tx.changesOf tenant).publish t).WellKeyed) (key : EdgeKey) :
    (if key ∈ ((s.view tx tenant).edges.filter (·.touches id)).map Edge.key then none
      else (tx.changesOf tenant).edges.find? t.edges key) =
      ((tx.changesOf tenant).edges.find? t.edges key).filter fun row => !row.touches id := by
  cases hrow : (tx.changesOf tenant).edges.find? t.edges key with
  | none => simp
  | some row =>
      have hkey : row.key = key := hkeyed.edges (by
        rw [Changes.publish, Staging.getElem?_publish]
        exact hrow)
      by_cases htouch : row.touches id = true
      · -- the committed table may have lost this row meanwhile, but the view of then had one under
        -- the key, and whether a row touches a node can be told from its key
        have hseen : (s.view tx tenant).edge? key ≠ none := by
          intro hgone
          have hnone := Staging.find?_eq_none_of_getElem?_eq_none hgone ht.edges
          exact Option.some_ne_none row (hrow.symm.trans hnone)
        obtain ⟨seen, hseen⟩ := Option.ne_none_iff_exists'.1 hseen
        have hseenKey : seen.key = key := by
          rw [View.edge?_eq_settled] at hseen
          exact hk.edges hseen
        have hseenTouch : seen.touches id = true := by
          rw [touches_iff_key, hseenKey, ← hkey, ← touches_iff_key]
          exact htouch
        have hmem : key ∈ ((s.view tx tenant).edges.filter (·.touches id)).map Edge.key := by
          rw [List.mem_map]
          exact ⟨seen, List.mem_filter.2 ⟨View.mem_edges.2 ⟨key, hseen⟩, hseenTouch⟩, hseenKey⟩
        rw [if_pos hmem, Option.filter_some_neg]
        simp [htouch]
      · have hmem : key ∉ ((s.view tx tenant).edges.filter (·.touches id)).map Edge.key := by
          rw [List.mem_map]
          rintro ⟨e, he, hekey⟩
          apply htouch
          rw [touches_iff_key, hkey, ← hekey, ← touches_iff_key]
          exact (List.mem_filter.1 he).2
        rw [if_neg hmem, Option.filter_some_pos]
        simp [htouch]

theorem stage_deleteEdgesTouching (hw : tx.access.isWritable = true)
    (hk : (s.view tx tenant).settled.WellKeyed) (id : String) :
    ∃ tx', (deleteEdgesTouching id).stage s tx tenant
        = .ok ((deleteEdgesTouching id).answer (s.view tx tenant).settled, tx') ∧
      s.Stages (deleteEdgesTouching id) tenant tx tx' := by
  refine ⟨_, stage_deleteEdgesTouching_eq hw id, ?_⟩
  obtain ⟨haccess, hothers⟩ := foldl_stageEdge_others tenant
    ((s.view tx tenant).edges.filter (·.touches id)) tx
  refine ⟨haccess, hothers, ?_⟩
  intro t ht hkeyed
  rw [changesOf_foldl_stageEdge]
  have hedges : Staging.publish
      ((((s.view tx tenant).edges.filter (·.touches id)).map Edge.key).foldl
        (fun staging k => staging.insert k .delete) (tx.changesOf tenant).edges) t.edges =
      ((tx.changesOf tenant).edges.publish t.edges).filter fun _ row => !row.touches id := by
    apply Std.ExtTreeMap.ext_getElem?
    intro key
    rw [Staging.getElem?_publish, Staging.find?_foldl_delete,
      find?_without_touching hk id ht hkeyed, Std.ExtTreeMap.getElem?_filter',
      Staging.getElem?_publish]
  rw [Changes.publish, hedges]
  rfl

/-- Every write is staged with its direct answer and its direct effect. -/
theorem stage_eq_ok (w : Write) (hw : tx.access.isWritable = true)
    (hk : (s.view tx tenant).settled.WellKeyed) :
    ∃ tx', w.stage s tx tenant = .ok (w.answer (s.view tx tenant).settled, tx') ∧
      s.Stages w tenant tx tx' := by
  cases w with
  | putNode row => exact ⟨_, stage_putNode hw row⟩
  | deleteNode id => exact stage_deleteNode hw id
  | updateNode id u => exact stage_updateNode hw id u
  | putEdge row => exact ⟨_, stage_putEdge hw row⟩
  | deleteEdge key => exact stage_deleteEdge hw key
  | updateEdge key u => exact stage_updateEdge hw key u
  | deleteEdgesTouching id => exact stage_deleteEdgesTouching hw hk id

end Write

end SalientGraph
