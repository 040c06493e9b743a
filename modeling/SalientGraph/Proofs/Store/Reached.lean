import SalientGraph.Proofs.Store.Transactions

/-!
# Stores that transactions make

Whatever transactions stage and in whatever order they are committed, every row is kept
under its own key: it is staged under it, updates do not change it, and publishing
leaves it where it is staged.
-/

namespace SalientGraph

namespace Staging

variable {κ ρ : Type} {order : κ → κ → Ordering} [Std.TransCmp order] [Std.LawfulEqCmp order]
  [Rated ρ]

/-- What is staged to be put is staged under its own key. -/
def OwnKeyed (keyOf : ρ → κ) (staging : Staging κ ρ order) : Prop :=
  ∀ key row, staging[key]? = some (.put row) → keyOf row = key

variable {keyOf : ρ → κ} {staging : Staging κ ρ order}

omit [Std.LawfulEqCmp order] [Rated ρ] in
theorem ownKeyed_empty : OwnKeyed keyOf (∅ : Staging κ ρ order) := by
  intro key row h
  simp at h

omit [Rated ρ] in
/-- One more write keeps to own keys if it does so itself. -/
theorem OwnKeyed.insert (h : staging.OwnKeyed keyOf) {key : κ} {staged : Staged ρ}
    (hstaged : ∀ row, staged = .put row → keyOf row = key) :
    OwnKeyed keyOf (staging.insert key staged) := by
  intro other row hrow
  rw [Std.ExtTreeMap.getElem?_insert] at hrow
  split at hrow
  · rename_i hkey
    rw [← Std.LawfulEqCmp.eq_of_compare hkey]
    exact hstaged row (Option.some.inj hrow)
  · exact h other row hrow

omit [Rated ρ] in
theorem OwnKeyed.insert_delete (h : staging.OwnKeyed keyOf) (key : κ) :
    OwnKeyed keyOf (staging.insert key .delete) :=
  h.insert fun _ heq => by contradiction

/-- An update of a row that is to be put leaves it under its key. -/
theorem OwnKeyed.stageUpdate
    (hupdate : ∀ (u : RelevanceUpdate) row, keyOf (u.applyTo row) = keyOf row)
    (h : staging.OwnKeyed keyOf) (key : κ) (u : RelevanceUpdate) :
    OwnKeyed keyOf (staging.stageUpdate key u) := by
  apply h.insert
  intro row hrow
  cases hs : staging[key]? with
  | none =>
      rw [hs] at hrow
      contradiction
  | some s =>
      rw [hs] at hrow
      cases s with
      | put old =>
          have hold : u.applyTo old = row := Staged.put.inj hrow
          rw [← hold, hupdate]
          exact h key old hs
      | delete => contradiction
      | update changes => contradiction

/-- Published rows are where they were staged or, updated or not, where they were before. -/
theorem OwnKeyed.publish
    (hupdate : ∀ (u : RelevanceUpdate) row, keyOf (u.applyTo row) = keyOf row)
    (h : staging.OwnKeyed keyOf) {table : Table κ ρ order}
    (htable : ∀ {key : κ} {row : ρ}, table[key]? = some row → keyOf row = key) {key : κ} {row : ρ}
    (hrow : (staging.publish table)[key]? = some row) : keyOf row = key := by
  have hupdates : ∀ (us : List RelevanceUpdate) row,
      keyOf (RelevanceUpdate.applyAll us row) = keyOf row := by
    intro us
    induction us with
    | nil => exact fun _ => rfl
    | cons u us ih =>
        intro row
        show keyOf (RelevanceUpdate.applyAll us (u.applyTo row)) = keyOf row
        rw [ih, hupdate]
  rw [getElem?_publish] at hrow
  unfold find? at hrow
  cases hs : staging[key]? with
  | none =>
      rw [hs] at hrow
      exact htable hrow
  | some s =>
      rw [hs] at hrow
      cases s with
      | put new =>
          rw [← Option.some.inj hrow]
          exact h key new hs
      | delete => contradiction
      | update changes =>
          obtain ⟨old, hold, rfl⟩ := Option.map_eq_some_iff.1 hrow
          rw [hupdates]
          exact htable hold

end Staging

/-- Whatever the transaction puts, for whichever tenant, it puts under its own key. -/
structure Transaction.OwnKeyed (tx : Transaction) : Prop where
  nodes : ∀ tenant, (tx.changesOf tenant).nodes.OwnKeyed Node.id
  edges : ∀ tenant, (tx.changesOf tenant).edges.OwnKeyed Edge.key

namespace Transaction.OwnKeyed

variable {tx : Transaction}

theorem mapNodes (h : tx.OwnKeyed) (tenant : Tenant)
    (f : Staging String SealedNode compare → Staging String SealedNode compare)
    (hf : (f (tx.changesOf tenant).nodes).OwnKeyed Node.id) : (tx.mapNodes tenant f).OwnKeyed := by
  constructor
  · intro other
    by_cases hother : other = tenant
    · subst hother
      rw [changesOf_mapNodes_self]
      exact hf
    · rw [changesOf_mapNodes_of_ne tx f hother]
      exact h.nodes other
  · intro other
    by_cases hother : other = tenant
    · subst hother
      rw [changesOf_mapNodes_self]
      exact h.edges other
    · rw [changesOf_mapNodes_of_ne tx f hother]
      exact h.edges other

theorem mapEdges (h : tx.OwnKeyed) (tenant : Tenant)
    (f : Staging EdgeKey SealedEdge EdgeKey.order → Staging EdgeKey SealedEdge EdgeKey.order)
    (hf : (f (tx.changesOf tenant).edges).OwnKeyed Edge.key) : (tx.mapEdges tenant f).OwnKeyed := by
  constructor
  · intro other
    by_cases hother : other = tenant
    · subst hother
      rw [changesOf_mapEdges_self]
      exact h.nodes other
    · rw [changesOf_mapEdges_of_ne tx f hother]
      exact h.nodes other
  · intro other
    by_cases hother : other = tenant
    · subst hother
      rw [changesOf_mapEdges_self]
      exact hf
    · rw [changesOf_mapEdges_of_ne tx f hother]
      exact h.edges other

/-- Removals of edges put nothing. -/
theorem foldl_stageEdge (tenant : Tenant) (doomed : List SealedEdge) :
    ∀ {tx : Transaction}, tx.OwnKeyed →
      (doomed.foldl (fun tx e => tx.stageEdge tenant e.key .delete) tx).OwnKeyed := by
  induction doomed with
  | nil => exact fun h => h
  | cons e doomed ih =>
      intro tx h
      exact ih (h.mapEdges tenant (·.insert e.key .delete) ((h.edges tenant).insert_delete e.key))

/-- Every write keeps to own keys. -/
theorem stage (h : tx.OwnKeyed) {s : Store} {w : Write} {tenant : Tenant} {a : Write.Answer}
    {tx' : Transaction} (hstage : w.stage s tx tenant = .ok (a, tx')) : tx'.OwnKeyed := by
  have hw := checkWritable_eq_ok (Write.isWritable_of_stage hstage)
  cases w with
  | putNode row =>
      simp only [Write.stage, Store.putNode, hw, bind, Except.bind, pure, Except.pure,
        Except.map] at hstage
      cases hstage
      apply h.mapNodes
      apply (h.nodes tenant).insert
      intro new hnew
      rw [Staged.put.inj hnew]
  | deleteNode id =>
      simp only [Write.stage, Store.deleteNode, hw, bind, Except.bind, pure, Except.pure] at hstage
      split at hstage
      · cases hstage
        exact h.mapNodes tenant (·.insert id .delete) ((h.nodes tenant).insert_delete id)
      · cases hstage
        exact h
  | updateNode id u =>
      simp only [Write.stage, Store.updateNode, hw, bind, Except.bind, pure, Except.pure] at hstage
      split at hstage
      · cases hstage
        exact h.mapNodes tenant (·.stageUpdate id u)
          ((h.nodes tenant).stageUpdate Node.id_applyTo id u)
      · cases hstage
        exact h
  | putEdge row =>
      simp only [Write.stage, Store.putEdge, hw, bind, Except.bind, pure, Except.pure,
        Except.map] at hstage
      cases hstage
      apply h.mapEdges
      apply (h.edges tenant).insert
      intro new hnew
      rw [Staged.put.inj hnew]
  | deleteEdge key =>
      simp only [Write.stage, Store.deleteEdge, hw, bind, Except.bind, pure, Except.pure] at hstage
      split at hstage
      · cases hstage
        exact h.mapEdges tenant (·.insert key .delete) ((h.edges tenant).insert_delete key)
      · cases hstage
        exact h
  | updateEdge key u =>
      simp only [Write.stage, Store.updateEdge, hw, bind, Except.bind, pure, Except.pure] at hstage
      split at hstage
      · cases hstage
        exact h.mapEdges tenant (·.stageUpdate key u)
          ((h.edges tenant).stageUpdate Edge.key_applyTo key u)
      · cases hstage
        exact h
  | deleteEdgesTouching id =>
      simp only [Write.stage, Store.deleteEdgesTouching, hw, bind, Except.bind, pure, Except.pure,
        Except.map] at hstage
      cases hstage
      exact h.foldl_stageEdge tenant _

end Transaction.OwnKeyed

/-! ## Histories -/

/-- A transaction that has been begun, and in which anything may have been staged. The store may
have been another one each time. -/
inductive Transaction.Made : Transaction → Prop where
  | begun (s : Store) (access : Access) : Made (s.begin access).1
  | staged {tx tx' : Transaction} {a : Write.Answer} (s : Store) (w : Write) (tenant : Tenant)
      (h : Made tx) (hstage : w.stage s tx tenant = .ok (a, tx')) : Made tx'

/-- A store that has come from an empty one by commits, its counters and its state aside. -/
inductive Store.Reached : Store → Prop where
  | empty {s : Store} (htables : s.tables = ∅) : Reached s
  | committed {s t : Store} {tx : Transaction} (h : Reached s) (htx : tx.Made)
      (htables : t.tables = (s.commit tx).tables) : Reached t

theorem Store.changesOf_begin (s : Store) (access : Access) (tenant : Tenant) :
    (s.begin access).1.changesOf tenant = {} := by
  simp [begin, Transaction.changesOf]

theorem Store.ownKeyed_begin (s : Store) (access : Access) : (s.begin access).1.OwnKeyed := by
  constructor
  · intro tenant
    rw [changesOf_begin]
    exact Staging.ownKeyed_empty
  · intro tenant
    rw [changesOf_begin]
    exact Staging.ownKeyed_empty

theorem Transaction.Made.putNode {tx : Transaction} (h : tx.Made) (haccess : tx.access = .readWrite)
    (tenant : Tenant) (row : SealedNode) : (tx.stageNode tenant row.id (.put row)).Made := by
  have hstage : (Write.putNode row).stage {} tx tenant =
      .ok (.done, tx.stageNode tenant row.id (.put row)) := by
    simp only [Write.stage, Store.putNode, Transaction.checkWritable, haccess]
    rfl
  exact .staged {} _ _ h hstage

section
variable {s : Store} {tx : Transaction} {tenant : Tenant} {key : EdgeKey}

/-- An edge that is seen can be removed. -/
theorem Transaction.Made.deleteEdge (h : tx.Made) (haccess : tx.access = .readWrite)
    (hseen : ((s.view tx tenant).edge? key).isSome = true) :
    (tx.stageEdge tenant key .delete).Made := by
  have hstage : (Write.deleteEdge key).stage s tx tenant =
      .ok (.found true, tx.stageEdge tenant key .delete) := by
    simp only [Write.stage, Store.deleteEdge, Transaction.checkWritable, haccess, bind, Except.bind,
      Access.isWritable, if_true, hseen]
    rfl
  exact .staged s _ tenant h hstage

/-- An edge that is seen can be updated. -/
theorem Transaction.Made.updateEdge (h : tx.Made) (haccess : tx.access = .readWrite)
    (hseen : ((s.view tx tenant).edge? key).isSome = true) (u : RelevanceUpdate) :
    (tx.mapEdges tenant (·.stageUpdate key u)).Made := by
  have hstage : (Write.updateEdge key u).stage s tx tenant =
      .ok (.found true, tx.mapEdges tenant (·.stageUpdate key u)) := by
    simp only [Write.stage, Store.updateEdge, Transaction.checkWritable, haccess, bind, Except.bind,
      Access.isWritable, if_true, hseen]
    rfl
  exact .staged s _ tenant h hstage

end

theorem Transaction.Made.ownKeyed {tx : Transaction} (h : tx.Made) : tx.OwnKeyed := by
  induction h with
  | begun s access => exact s.ownKeyed_begin access
  | staged s w tenant _ hstage ih => exact ih.stage hstage

/-- Rows that are put under their own keys are kept there by a commit. -/
theorem Store.WellKeyed.commit {s : Store} (h : s.WellKeyed) {tx : Transaction}
    (htx : tx.OwnKeyed) : (s.commit tx).WellKeyed := by
  intro tenant
  rw [tablesOf_commit]
  constructor
  · intro id row hrow
    exact (htx.nodes tenant).publish Node.id_applyTo (h tenant).nodes hrow
  · intro key row hrow
    exact (htx.edges tenant).publish Edge.key_applyTo (h tenant).edges hrow

/-- Whatever has been committed, every row is kept under its own key. -/
theorem Store.Reached.wellKeyed {s : Store} (h : s.Reached) : s.WellKeyed := by
  induction h with
  | empty htables =>
      intro tenant
      rw [tablesOf, htables, Std.ExtTreeMap.getD_empty]
      exact Tables.wellKeyed_empty
  | @committed s t tx _ htx htables ih =>
      intro tenant
      have hcommit : t.tablesOf tenant = (s.commit tx).tablesOf tenant := by
        rw [tablesOf, tablesOf, htables]
      rw [hcommit]
      exact ih.commit htx.ownKeyed tenant

/-- A transaction sees every row under its own key. -/
theorem Store.Reached.wellKeyed_settled {store : Store} {tx : Transaction} (hstore : store.Reached)
    (htx : tx.Made) (tenant : Tenant) : (store.view tx tenant).settled.WellKeyed := by
  have hkeyed := hstore.wellKeyed.commit htx.ownKeyed tenant
  rw [Store.tablesOf_commit] at hkeyed
  exact hkeyed

end SalientGraph
