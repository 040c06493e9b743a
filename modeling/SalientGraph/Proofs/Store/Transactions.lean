import SalientGraph.Proofs.Store.Writes

/-!
# Transactions act like direct writes

While nothing else commits, the writes of a transaction answer as if each of them had
changed the tables at once, everything read in between is read from such tables, and
committing leaves just them. The one thing that shows is the order in which edges are
listed, so that an edge scan cut short may stop elsewhere.
-/

namespace SalientGraph

/-! ## Direct writes for several tenants -/

namespace Write

/-- The graphs of all tenants after a write for one of them. -/
def applyAt (w : Write) (tenant : Tenant) (graphs : Tenant → Tables) : Tenant → Tables :=
  fun other => if other = tenant then w.applyTo (graphs tenant) else graphs other

@[simp] theorem applyAt_self (w : Write) (tenant : Tenant) (graphs : Tenant → Tables) :
    w.applyAt tenant graphs tenant = w.applyTo (graphs tenant) :=
  if_pos rfl

/-- The graphs of all tenants after several writes, one after another. -/
def applyAll (ws : List (Tenant × Write)) (graphs : Tenant → Tables) : Tenant → Tables :=
  ws.foldl (fun graphs w => w.2.applyAt w.1 graphs) graphs

/-- The answers of several writes, each made of the graphs that the ones before have left. -/
def answers : List (Tenant × Write) → (Tenant → Tables) → List Answer
  | [], _ => []
  | (tenant, w) :: rest, graphs =>
    w.answer (graphs tenant) :: answers rest (w.applyAt tenant graphs)

/-- Several writes staged one after another in a transaction. -/
def stageAll (s : Store) (tx : Transaction) :
    List (Tenant × Write) → Except Fault (List Answer × Transaction)
  | [] => .ok ([], tx)
  | (tenant, w) :: rest => do
    let (first, tx) ← w.stage s tx tenant
    let (more, tx) ← stageAll s tx rest
    return (first :: more, tx)

theorem wellKeyed_applyTo (w : Write) {t : Tables} (ht : t.WellKeyed) :
    (w.applyTo t).WellKeyed := by
  constructor
  · intro id row h
    cases w with
    | putNode new =>
        simp only [applyTo, Std.ExtTreeMap.getElem?_insert] at h
        split at h
        · rename_i hid
          rw [← Option.some.inj h]
          exact Std.LawfulEqCmp.eq_of_compare hid
        · exact ht.nodes h
    | deleteNode gone =>
        simp only [applyTo, Std.ExtTreeMap.getElem?_erase] at h
        split at h
        · contradiction
        · exact ht.nodes h
    | updateNode changed u =>
        simp only [applyTo, Std.ExtTreeMap.getElem?_modify] at h
        split at h
        · rename_i hid
          obtain ⟨old, hold, rfl⟩ := Option.map_eq_some_iff.1 h
          rw [Node.id_applyTo, ht.nodes hold]
          exact Std.LawfulEqCmp.eq_of_compare hid
        · exact ht.nodes h
    | putEdge _ => exact ht.nodes h
    | deleteEdge _ => exact ht.nodes h
    | updateEdge _ _ => exact ht.nodes h
    | deleteEdgesTouching _ => exact ht.nodes h
  · intro key row h
    cases w with
    | putNode _ => exact ht.edges h
    | deleteNode _ => exact ht.edges h
    | updateNode _ _ => exact ht.edges h
    | putEdge new =>
        simp only [applyTo, Std.ExtTreeMap.getElem?_insert] at h
        split at h
        · rename_i hkey
          rw [← Option.some.inj h]
          exact Std.LawfulEqCmp.eq_of_compare hkey
        · exact ht.edges h
    | deleteEdge gone =>
        simp only [applyTo, Std.ExtTreeMap.getElem?_erase] at h
        split at h
        · contradiction
        · exact ht.edges h
    | updateEdge changed u =>
        simp only [applyTo, Std.ExtTreeMap.getElem?_modify] at h
        split at h
        · rename_i hkey
          obtain ⟨old, hold, rfl⟩ := Option.map_eq_some_iff.1 h
          rw [Edge.key_applyTo, ht.edges hold]
          exact Std.LawfulEqCmp.eq_of_compare hkey
        · exact ht.edges h
    | deleteEdgesTouching id =>
        rw [applyTo, Std.ExtTreeMap.getElem?_filter'] at h
        exact ht.edges (Option.filter_eq_some_iff.1 h).1

theorem wellKeyed_applyAt (w : Write) (tenant : Tenant) {graphs : Tenant → Tables}
    (h : ∀ tenant, (graphs tenant).WellKeyed) (other : Tenant) :
    (w.applyAt tenant graphs other).WellKeyed := by
  unfold applyAt
  split
  · exact wellKeyed_applyTo w (h tenant)
  · exact h other

theorem wellKeyed_applyAll (ws : List (Tenant × Write)) :
    ∀ {graphs : Tenant → Tables}, (∀ tenant, (graphs tenant).WellKeyed) →
      ∀ tenant, (applyAll ws graphs tenant).WellKeyed := by
  induction ws with
  | nil => exact fun h => h
  | cons w ws ih =>
      intro graphs h
      exact ih (wellKeyed_applyAt w.2 w.1 h)

end Write

/-! ## Committing -/

namespace Store

theorem eq_empty_of_isEmpty {c : Changes} (h : c.isEmpty = true) : c = {} := by
  obtain ⟨nodes, edges⟩ := c
  simp only [Changes.isEmpty, Bool.and_eq_true, Std.ExtTreeMap.isEmpty_iff] at h
  rw [h.1, h.2]

@[simp] theorem publish_empty (t : Tables) : ({} : Changes).publish t = t := by
  simp [Changes.publish]

/-- The tables of a tenant after those of several others have been published, each once. -/
theorem getD_foldl_publish (tenant : Tenant) (entries : List (Tenant × Changes)) :
    ∀ tables : Std.ExtTreeMap Tenant Tables Tenant.order,
      entries.Pairwise (fun a b => ¬ Tenant.order a.1 b.1 = .eq) →
      (entries.foldl (fun tables entry =>
          tables.insert entry.1 (entry.2.publish (tables.getD entry.1 {}))) tables).getD tenant {} =
        match entries.find? fun entry => Tenant.order entry.1 tenant == .eq with
        | some entry => entry.2.publish (tables.getD tenant {})
        | none => tables.getD tenant {} := by
  induction entries with
  | nil => intro tables _; rfl
  | cons entry rest ih =>
      intro tables h
      rw [List.pairwise_cons] at h
      rw [List.foldl_cons, ih _ h.2, List.find?_cons]
      by_cases ht : Tenant.order entry.1 tenant = .eq
      · -- the tenant is published now, and no later entry is its own
        have htenant := Std.LawfulEqCmp.eq_of_compare ht
        have hrest : (rest.find? fun other => Tenant.order other.1 tenant == .eq) = none := by
          rw [List.find?_eq_none]
          intro other hm he
          apply h.1 other hm
          rw [htenant, ← Std.LawfulEqCmp.eq_of_compare (eq_of_beq he)]
          exact Std.ReflCmp.compare_self
        simp [hrest, htenant, Std.ReflCmp.compare_self]
      · have ht' : (Tenant.order entry.1 tenant == .eq) = false := by simpa using ht
        rw [ht']
        simp [Std.ExtTreeMap.getD_insert, ht]

/-- A commit publishes for each tenant what was staged for it. -/
theorem tablesOf_commit (s : Store) (tx : Transaction) (tenant : Tenant) :
    (s.commit tx).tablesOf tenant = (tx.changesOf tenant).publish (s.tablesOf tenant) := by
  have hfound := Staging.find?_toList tx.changes tenant
  have hchanges : tx.changesOf tenant = (tx.changes[tenant]?).getD {} := by
    rw [Transaction.changesOf, Std.ExtTreeMap.getD_eq_getD_getElem?]
  rw [hchanges]
  by_cases hclean : tx.isClean = true
  · -- nothing is written then, which is what empty changes would do as well
    rw [commit_of_isClean hclean]
    cases hc : tx.changes[tenant]? with
    | none => exact (publish_empty _).symm
    | some c =>
        have hmem := Std.ExtTreeMap.mem_toList_iff_getElem?_eq_some.2 hc
        have hempty : c.isEmpty = true := List.all_eq_true.1 hclean _ hmem
        rw [eq_empty_of_isEmpty hempty]
        exact (publish_empty _).symm
  · rw [commit, if_neg hclean]
    show Std.ExtTreeMap.getD (tx.changes.toList.foldl _ s.tables) tenant {} = _
    rw [getD_foldl_publish tenant _ _ Std.ExtTreeMap.distinct_keys_toList, hfound]
    cases tx.changes[tenant]? with
    | none => exact (publish_empty _).symm
    | some c => rfl

end Store

/-! ## Questions -/

/-- Views that answer every question alike. Edges are listed as they come, so that a scan of edges
finds the same ones only as long as its limit leaves none out. -/
structure View.SameAnswers (v w : View) : Prop where
  node? : ∀ id, v.node? id = w.node? id
  edge? : ∀ key, v.edge? key = w.edge? key
  nodesAfter : ∀ cursor limit, v.nodesAfter cursor limit = w.nodesAfter cursor limit
  textCandidates : ∀ q limit, v.textCandidates q limit = w.textCandidates q limit
  vectorCandidates : ∀ embedding limit,
    v.vectorCandidates embedding limit = w.vectorCandidates embedding limit
  scanEdges : ∀ keep limit, w.edges.countP keep ≤ limit →
    (v.scanEdges limit keep).Perm (w.scanEdges limit keep)

namespace View

theorem Alike.sameAnswers {v w : View} (h : v.Alike w) (hv : v.settled.WellKeyed) :
    v.SameAnswers w where
  node? := h.node?
  edge? := h.edge?
  nodesAfter := h.nodesAfter_eq hv
  textCandidates := h.textCandidates_eq hv
  vectorCandidates := h.vectorCandidates_eq hv
  scanEdges keep limit hlimit := by
    have hlimit' : v.edges.countP keep ≤ limit := by
      rwa [h.edges.countP_eq keep]
    rw [scanEdges_eq_filter hlimit, scanEdges_eq_filter hlimit']
    exact h.edges.filter keep

/-- The pairs of ends that touch some nodes are found by two scans. -/
theorem SameAnswers.pairsTouching {v w : View} (h : v.SameAnswers w) (ids : List String)
    {limit : Nat}
    (hout : w.edges.countP
      (fun e => (Std.ExtTreeSet.ofList ids compare).contains e.source) ≤ limit)
    (hin : w.edges.countP
      (fun e => (Std.ExtTreeSet.ofList ids compare).contains e.target) ≤ limit) :
    (v.pairsTouching ids limit).Perm (w.pairsTouching ids limit) :=
  ((h.scanEdges _ _ hout).append (h.scanEdges _ _ hin)).map _

end View

/-! ## A transaction by itself -/

namespace Store

/-- A transaction in which writes have been staged that make some graphs of the committed ones. -/
structure Holds (s : Store) (tx : Transaction) (graphs : Tenant → Tables) : Prop where
  writable : tx.access.isWritable = true
  settled : ∀ tenant, (s.view tx tenant).settled = graphs tenant
  wellKeyed : ∀ tenant, (graphs tenant).WellKeyed

theorem holds_begin {s : Store} (hs : s.WellKeyed) :
    (s.begin .readWrite).2.Holds (s.begin .readWrite).1 s.tablesOf where
  writable := rfl
  settled tenant := by
    rw [view_begin]
    exact publish_empty _
  wellKeyed := hs

/-- What a transaction sees after one more write is what the write makes of what it saw before. -/
theorem Stages.settled {s : Store} {w : Write} {tenant : Tenant} {tx tx' : Transaction}
    (h : s.Stages w tenant tx tx') (hk : (s.view tx tenant).settled.WellKeyed) (other : Tenant) :
    (s.view tx' other).settled =
      w.applyAt tenant (fun tenant => (s.view tx tenant).settled) other := by
  unfold Write.applyAt
  split
  · rename_i hother
    subst hother
    exact h.publish _ (.refl _) hk
  · rename_i hother
    show (s.view tx' other).settled = (s.view tx other).settled
    rw [view, view, h.others other hother]

/-- One more write answers from the graphs that the writes before it make, and adds to them. -/
theorem Holds.stage {s : Store} {tx : Transaction} {graphs : Tenant → Tables}
    (h : s.Holds tx graphs) (w : Write) (tenant : Tenant) :
    ∃ tx', w.stage s tx tenant = .ok (w.answer (graphs tenant), tx') ∧
      s.Holds tx' (w.applyAt tenant graphs) := by
  have hk : (s.view tx tenant).settled.WellKeyed := by
    rw [h.settled]
    exact h.wellKeyed tenant
  obtain ⟨tx', hstage, hstages⟩ := w.stage_eq_ok h.writable hk
  have hgraphs : graphs = fun tenant => (s.view tx tenant).settled :=
    funext fun tenant => (h.settled tenant).symm
  rw [h.settled] at hstage
  refine ⟨tx', hstage, ?_, ?_, w.wellKeyed_applyAt tenant h.wellKeyed⟩
  · rw [hstages.access]
    exact h.writable
  · rw [hgraphs]
    exact hstages.settled hk

/-- Several writes answer as if each were made at once, and make of the graphs what they would. -/
theorem Holds.stageAll {s : Store} (ws : List (Tenant × Write)) :
    ∀ {tx : Transaction} {graphs : Tenant → Tables}, s.Holds tx graphs →
      ∃ tx', Write.stageAll s tx ws = .ok (Write.answers ws graphs, tx') ∧
        s.Holds tx' (Write.applyAll ws graphs) := by
  induction ws with
  | nil => exact fun {tx _} h => ⟨tx, rfl, h⟩
  | cons w ws ih =>
      intro tx graphs h
      obtain ⟨middle, hfirst, hmiddle⟩ := h.stage w.2 w.1
      obtain ⟨tx', hrest, htx'⟩ := ih hmiddle
      refine ⟨tx', ?_, htx'⟩
      simp only [Write.stageAll, hfirst, hrest, bind, Except.bind]
      rfl

theorem Holds.tablesOf_commit {s : Store} {tx : Transaction} {graphs : Tenant → Tables}
    (h : s.Holds tx graphs) (tenant : Tenant) : (s.commit tx).tablesOf tenant = graphs tenant := by
  rw [Store.tablesOf_commit]
  exact h.settled tenant

/-- A store with one committed node. -/
def withNode (tenant : Tenant) (row : SealedNode) : Store :=
  { tables := Std.ExtTreeMap.insert ∅ tenant ((Write.putNode row).applyTo {}) }

theorem wellKeyed_withNode (tenant : Tenant) (row : SealedNode) :
    (withNode tenant row).WellKeyed := by
  intro other
  simp only [withNode, tablesOf, Std.ExtTreeMap.getD_insert, Std.ExtTreeMap.getD_empty]
  split
  · exact (Write.putNode row).wellKeyed_applyTo Tables.wellKeyed_empty
  · exact Tables.wellKeyed_empty

/-- Over well-keyed tables, any writes staged in one transaction answer as direct ones would. After
them, every question is answered as in the graphs that the direct writes make, and a commit makes
these graphs the committed ones, well-keyed again. -/
theorem stageAll_acts_directly (s : Store) (hs : s.WellKeyed) (ws : List (Tenant × Write)) :
    ∃ tx, Write.stageAll (s.begin .readWrite).2 (s.begin .readWrite).1 ws
        = .ok (Write.answers ws s.tablesOf, tx) ∧
      (∀ tenant, ((s.begin .readWrite).2.view tx tenant).SameAnswers
        (Write.applyAll ws s.tablesOf tenant).view) ∧
      (∀ tenant, ((s.begin .readWrite).2.commit tx).tablesOf tenant
        = Write.applyAll ws s.tablesOf tenant) ∧
      ((s.begin .readWrite).2.commit tx).WellKeyed := by
  obtain ⟨tx, hstage, htx⟩ := (holds_begin hs).stageAll ws
  have hcommit : ∀ tenant, ((s.begin .readWrite).2.commit tx).tablesOf tenant
      = Write.applyAll ws s.tablesOf tenant := htx.tablesOf_commit
  refine ⟨tx, hstage, ?_, hcommit, ?_⟩
  · intro tenant
    have hsettled := htx.settled tenant
    have halike := ((s.begin .readWrite).2.view tx tenant).alike_settled
    rw [hsettled] at halike
    apply halike.sameAnswers
    rw [hsettled]
    exact htx.wellKeyed tenant
  · intro tenant
    rw [hcommit]
    exact htx.wellKeyed tenant

/-- A committed node is boosted, deleted, boosted in vain, put again with an edge from it to itself,
and deleted once more after its edges. -/
theorem stageAll_acts_directly_on_one_key :
    let row : SealedNode := ⟨"a", "person", "Ada", ⟨[]⟩, none, default⟩
    let loop : SealedEdge := ⟨"a", "a", "knows", 1.0, ⟨[]⟩, default⟩
    let boost : RelevanceUpdate := ⟨.ofFloat 1.0, default, true, none, none⟩
    let writes : List (Tenant × Write) :=
      [.updateNode "a" boost, .deleteNode "a", .updateNode "a" boost, .putNode row, .putEdge loop,
        .deleteEdgesTouching "a", .deleteNode "a"].map (⟨"acme"⟩, ·)
    let s := withNode ⟨"acme"⟩ row
    ∃ tx, Write.stageAll (s.begin .readWrite).2 (s.begin .readWrite).1 writes
        = .ok ([.found true, .found true, .found false, .done, .done, .removed 1, .found true],
          tx) ∧
      (((s.begin .readWrite).2.commit tx).tablesOf ⟨"acme"⟩).nodes["a"]? = none := by
  intro row loop boost writes s
  obtain ⟨tx, hstage, _, hcommit, _⟩ :=
    stageAll_acts_directly s (wellKeyed_withNode ⟨"acme"⟩ row) writes
  have hanswers : Write.answers writes s.tablesOf =
      [.found true, .found true, .found false, .done, .done, .removed 1, .found true] := by
    decide +kernel
  refine ⟨tx, ?_, ?_⟩
  · rw [hstage, hanswers]
  · rw [hcommit]
    simp [writes, Write.applyAll, Write.applyAt, Write.applyTo]

end Store
end SalientGraph
