import SalientGraph.Proofs.Store.Effects
import SalientGraph.Proofs.Transitions

/-!
# Stored scores

A stored salience is never older than what it is computed from: with whatever an entry
comes, and whatever is done to it later on, its row holds the score that the formula
gives at the time of its last update. An update is scored for a row as the transaction
has found it, and in the same transaction nothing else changes this row before.
-/

namespace SalientGraph

/-- The salience is the score at the time of the last update. -/
def Relevance.IsScored (r : Relevance) : Prop :=
  r.salience = .ofFloat (r.score r.updatedAt)

/-- A node is scored, and is not its own successor. -/
structure Node.IsSound {π : Type} (n : Node π) : Prop where
  scored : n.relevance.IsScored
  successor : n.relevance.supersededBy ≠ some n.id

/-- All rows are under their own keys and scored, and no node is its own successor. -/
structure Tables.Scored (t : Tables) : Prop where
  wellKeyed : t.WellKeyed
  nodes : ∀ {id : String} {row : SealedNode}, t.nodes[id]? = some row → row.IsSound
  edges : ∀ {key : EdgeKey} {row : SealedEdge}, t.edges[key]? = some row → row.relevance.IsScored

/-- An update does not make a node its own successor. -/
def Rating.IsProper (r : Rating) : Prop :=
  r.update.supersededBy ≠ some r.row.id

/-- A row that an update was scored for is scored after it. -/
theorem Rating.isSound_rated {r : Rating} (hproper : r.IsProper) (hrow : r.row.IsSound) :
    r.rated.IsSound := by
  refine ⟨RelevanceUpdate.salience_apply_scoredFor r.update r.row.relevance, ?_⟩
  show ((r.update.scoredFor _).apply r.row.relevance).supersededBy ≠ some r.row.id
  rw [RelevanceUpdate.supersededBy_apply]
  intro hself
  rcases Option.or_eq_some_iff.1 hself with hnew | ⟨_, hold⟩
  · exact hproper hnew
  · exact hrow.successor hold

/-! ## Writes -/

namespace Tables

theorem scored_empty : ({} : Tables).Scored := by
  refine ⟨wellKeyed_empty, ?_, ?_⟩
  · intro id row h
    simp at h
  · intro key row h
    simp at h

namespace Scored

variable {t : Tables}

theorem putNode (h : t.Scored) {row : SealedNode} (hrow : row.IsSound) :
    ((Write.putNode row).applyTo t).Scored := by
  refine ⟨Write.wellKeyed_applyTo _ h.wellKeyed, ?_, h.edges⟩
  intro id other hother
  rw [Write.applyTo, Std.ExtTreeMap.getElem?_insert] at hother
  split at hother
  · rw [← Option.some.inj hother]
    exact hrow
  · exact h.nodes hother

theorem putEdge (h : t.Scored) {row : SealedEdge} (hrow : row.relevance.IsScored) :
    ((Write.putEdge row).applyTo t).Scored := by
  refine ⟨Write.wellKeyed_applyTo _ h.wellKeyed, h.nodes, ?_⟩
  intro key other hother
  rw [Write.applyTo, Std.ExtTreeMap.getElem?_insert] at hother
  split at hother
  · rw [← Option.some.inj hother]
    exact hrow
  · exact h.edges hother

theorem deleteNode (h : t.Scored) (id : String) : ((Write.deleteNode id).applyTo t).Scored := by
  refine ⟨Write.wellKeyed_applyTo _ h.wellKeyed, ?_, h.edges⟩
  intro other row hrow
  rw [Write.applyTo, Std.ExtTreeMap.getElem?_erase] at hrow
  split at hrow
  · contradiction
  · exact h.nodes hrow

theorem deleteEdge (h : t.Scored) (key : EdgeKey) : ((Write.deleteEdge key).applyTo t).Scored := by
  refine ⟨Write.wellKeyed_applyTo _ h.wellKeyed, h.nodes, ?_⟩
  intro other row hrow
  rw [Write.applyTo, Std.ExtTreeMap.getElem?_erase] at hrow
  split at hrow
  · contradiction
  · exact h.edges hrow

theorem deleteEdgesTouching (h : t.Scored) (id : String) :
    ((Write.deleteEdgesTouching id).applyTo t).Scored := by
  refine ⟨Write.wellKeyed_applyTo _ h.wellKeyed, h.nodes, ?_⟩
  intro key row hrow
  rw [Write.applyTo, Std.ExtTreeMap.getElem?_filter'] at hrow
  exact h.edges (Option.filter_eq_some_iff.1 hrow).1

/-- Ratings score each row for what they find, so that all stay scored. -/
theorem rate {rs : List Rating} :
    ∀ {t : Tables}, t.Scored → Rating.Fit t rs → (∀ r ∈ rs, r.IsProper) →
      (Write.applyEach (rs.map Rating.write) t).Scored := by
  induction rs with
  | nil => exact fun h _ _ => h
  | cons r rs ih =>
      intro t h hfit hproper
      have hrow : t.nodes[r.row.id]? = some r.row := hfit.found r List.mem_cons_self
      have hfirst : (r.write.applyTo t).Scored := by
        refine ⟨Write.wellKeyed_applyTo _ h.wellKeyed, ?_, h.edges⟩
        intro id row hid
        by_cases hsame : r.row.id = id
        · rw [← hsame, Rating.getElem?_applyTo_write_self hrow] at hid
          rw [← Option.some.inj hid]
          exact Rating.isSound_rated (hproper r List.mem_cons_self) (h.nodes hrow)
        · rw [Rating.getElem?_applyTo_write_of_ne hsame] at hid
          exact h.nodes hid
      exact ih hfirst hfit.tail fun other hother => hproper other (List.mem_cons_of_mem r hother)

theorem rateEdge (h : t.Scored) {key : EdgeKey} {row : SealedEdge} (hrow : t.edges[key]? = some row)
    (u : RelevanceUpdate) : ((Write.updateEdge key (u.plan row).1).applyTo t).Scored := by
  refine ⟨Write.wellKeyed_applyTo _ h.wellKeyed, h.nodes, ?_⟩
  intro other new hnew
  rw [Write.applyTo, Std.ExtTreeMap.getElem?_modify] at hnew
  split at hnew
  · rw [hrow] at hnew
    rw [← Option.some.inj hnew]
    exact RelevanceUpdate.salience_apply_scoredFor u row.relevance
  · exact h.edges hnew

/-- No call makes a node its own successor. -/
theorem isProper_ratings (h : t.Scored) (now : Timestamp) (call : Call) :
    ∀ r ∈ call.ratings now t, r.IsProper := by
  intro r hr
  cases call with
  | boostNode id =>
      obtain ⟨row, _, rfl⟩ := List.mem_map.1 hr
      exact (Option.some_ne_none _).symm
  | recordAccess ids =>
      obtain ⟨row, _, rfl⟩ := List.mem_map.1 hr
      exact (Option.some_ne_none _).symm
  | supersedeNode old new =>
      by_cases hsame : old = new
      · rw [Call.ratings, if_pos hsame] at hr
        contradiction
      · rw [Call.ratings, if_neg hsame] at hr
        rcases List.mem_append.1 hr with hold | hnew
        · obtain ⟨row, hrow, rfl⟩ := List.mem_map.1 hold
          intro hself
          apply hsame
          rw [← h.wellKeyed.nodes (Option.mem_toList.1 hrow)]
          exact (Option.some.inj hself).symm
        · obtain ⟨row, _, rfl⟩ := List.mem_map.1 hnew
          exact (Option.some_ne_none _).symm
  | createNode | createEdge | getNode | getEdge | removeNode | removeEdge | neighbors | traverse
  | context | shortestPath | fullTextSearch | semanticSearch | hybridSearch | boostEdge
  | recalculate => contradiction

/-- The updates of a call are scored. -/
theorem updates (h : t.Scored) (now : Timestamp) (call : Call) :
    (Write.applyEach (call.updates now t) t).Scored := by
  have hratings := h.rate (h.wellKeyed.fit_ratings now call) (h.isProper_ratings now call)
  cases call with
  | boostEdge key =>
      rw [Call.updates]
      cases hrow : t.edges[key]? with
      | none => exact h
      | some row => exact h.rateEdge hrow _
  | createNode | createEdge | getNode | getEdge | removeNode | removeEdge | neighbors | traverse
  | context | shortestPath | fullTextSearch | semanticSearch | hybridSearch | boostNode
  | supersedeNode | recordAccess | recalculate => exact hratings

theorem refresh (h : t.Scored) (now : Timestamp) (cursor : Option String) (limit : Nat) :
    (Write.applyEach
      ((Rating.stale now (t.view.nodesAfter cursor limit)).map Rating.write) t).Scored := by
  apply h.rate (h.wellKeyed.fit_stale now cursor limit)
  intro r hr
  obtain ⟨row, _, rfl⟩ := List.mem_map.1 hr
  exact (Option.some_ne_none _).symm

end Scored
end Tables

/-! ## Calls -/

/-- Nobody else uses the store, and all committed graphs are scored. -/
structure World.Scored (w : World) : Prop where
  alone : w.conditions.others = []
  committed : ∀ tenant, (w.store.tablesOf tenant).Scored

/-- What is asked of actions here: that the committed graphs are scored afterwards if they were so
before. -/
def World.scoring : Discipline Empty World :=
  .ofFrame (fun v w => v.Scored → w.Scored) (fun _ h => h) fun h h' hu => h' (h hu)

theorem World.scoring_of_keeps {α : Type} {act : Action α}
    (h : ∀ scope w, w.Scored → (finalState (act scope w)).Scored) : World.scoring.Obeys act :=
  ⟨fun i => i.elim, h⟩

theorem Write.scored_applyAt {w : Write} {tenant : Tenant} {graphs : Tenant → Tables}
    (h : ∀ tenant, (graphs tenant).Scored) (hw : (w.applyTo (graphs tenant)).Scored) :
    ∀ other, (w.applyAt tenant graphs other).Scored := by
  intro other
  unfold applyAt
  split
  · exact hw
  · exact h other

theorem Write.scored_applyEachAt {ws : List Write} {tenant : Tenant} {graphs : Tenant → Tables}
    (h : ∀ tenant, (graphs tenant).Scored) (hws : (applyEach ws (graphs tenant)).Scored) :
    ∀ other, (applyEachAt ws tenant graphs other).Scored := by
  intro other
  by_cases hother : other = tenant
  · rw [hother, applyEachAt_self]
    exact hws
  · rw [applyEachAt_of_ne ws hother]
    exact h other

namespace Action

variable {α : Type}

theorem scoring_of_still {act : Action α} (h : World.stillness.Obeys act) :
    World.scoring.Obeys act := by
  apply World.scoring_of_keeps
  intro scope w hw
  have hstill := h.keeps scope w
  refine ⟨hstill.conditions ▸ hw.alone, ?_⟩
  intro tenant
  rw [hstill.tablesOf_eq hw.alone]
  exact hw.committed tenant

/-- What leaves the store as it is leaves the committed graphs scored. -/
theorem scoring_of_store {act : Action α}
    (h : ∀ scope w, (finalState (act scope w)).store = w.store ∧
      (finalState (act scope w)).conditions = w.conditions) : World.scoring.Obeys act := by
  apply World.scoring_of_keeps
  intro scope w hw
  obtain ⟨hstore, hconditions⟩ := h scope w
  refine ⟨hconditions ▸ hw.alone, ?_⟩
  rw [hstore]
  exact hw.committed

theorem scoring_announce (event : ChangeEvent) : World.scoring.Obeys (announce event) :=
  scoring_of_store fun _ _ => ⟨rfl, rfl⟩

/-- A transaction for writing leaves the committed graphs scored if its session makes such. -/
theorem scoring_transact {body : TxAction α} (hbody : Session.stillness.Obeys body)
    (hmakes : ∀ wall graphs, (∀ tenant, (graphs tenant).Scored) →
      body.Makes wall graphs fun _ graphs' => ∀ tenant, (graphs' tenant).Scored) :
    World.scoring.Obeys (transact .readWrite body) := by
  apply World.scoring_of_keeps
  intro scope w hw
  have hkeyed : w.store.WellKeyed := fun tenant => (hw.committed tenant).wellKeyed
  rcases transact_makes hbody (hmakes _ _ hw.committed) hw.alone hkeyed scope with
    ⟨f, v, hrun, hv⟩ | ⟨a, graphs, v, hrun, hscored, hv⟩
  · rw [hrun]
    refine ⟨hv.conditions ▸ hw.alone, ?_⟩
    intro tenant
    show (v.store.tablesOf tenant).Scored
    rw [hv.tablesOf_eq hw.alone]
    exact hw.committed tenant
  · rw [hrun]
    refine ⟨hv.conditions ▸ hw.alone, ?_⟩
    intro tenant
    show (v.store.tablesOf tenant).Scored
    rw [hv.tables]
    exact hscored tenant

end Action

namespace Engine

open SalientGraph.Action (scoring_of_still scoring_of_store scoring_announce scoring_transact)

variable (e : Engine) {tenant : Tenant}

theorem successor_ne_of_checkNode {node : OpenNode} (h : checkNode node = .ok ()) :
    node.relevance.supersededBy ≠ some node.id := by
  unfold checkNode at h
  split at h
  · contradiction
  · split at h
    · contradiction
    · assumption

theorem scoring_createNode (node : OpenNode) : World.scoring.Obeys (e.createNode tenant node) := by
  have h := TxAction.editable_stillness tenant
  apply scoring_transact (h.step (h.putNode e node))
  intro wall graphs hgraphs
  apply (makes_putNode e node).step.weaken
  rintro rated _ ⟨hchecked, time, payload, _, rfl, rfl⟩
  apply Write.scored_applyAt hgraphs
  apply (hgraphs tenant).putNode
  exact ⟨Relevance.salience_scoredAt _ _, successor_ne_of_checkNode hchecked⟩

theorem scoring_createEdge (edge : OpenEdge) : World.scoring.Obeys (e.createEdge tenant edge) := by
  have h := TxAction.editable_stillness tenant
  apply scoring_transact (h.step (h.putEdge e edge))
  intro wall graphs hgraphs
  apply (makes_putEdge e edge).step.weaken
  rintro rated _ ⟨time, payload, _, rfl, rfl⟩
  apply Write.scored_applyAt hgraphs
  exact (hgraphs tenant).putEdge (Relevance.salience_scoredAt _ _)

theorem scoring_removeNode (id : String) : World.scoring.Obeys (removeNode tenant id) := by
  have h := TxAction.editable_stillness tenant
  apply scoring_transact (h.step (h.deleteNode id))
  intro wall graphs hgraphs
  apply (makes_deleteNode id).step.weaken
  rintro _ _ rfl
  exact Write.scored_applyEachAt hgraphs (((hgraphs tenant).deleteEdgesTouching id).deleteNode id)

theorem scoring_removeEdge (key : EdgeKey) : World.scoring.Obeys (removeEdge tenant key) := by
  have h := TxAction.editable_stillness tenant
  apply scoring_transact (h.step (h.deleteEdgeRow key))
  intro wall graphs hgraphs
  apply (makes_deleteEdge key).step.weaken
  rintro _ _ ⟨rfl, _⟩
  exact Write.scored_applyAt hgraphs ((hgraphs tenant).deleteEdge key)

theorem scoring_boostNode (id : String) : World.scoring.Obeys (e.boostNode tenant id) := by
  rw [boostNode_eq_boostRow]
  refine (scoring_transact ((TxAction.editable_stillness tenant).boostRow id) ?_).bind fun _ =>
    (scoring_announce _).bind fun _ => .ofOutcome _
  intro wall graphs hgraphs
  apply (makes_boostRow id).weaken
  rintro rated _ ⟨row, time, _, _, rfl⟩
  exact Write.scored_applyEachAt hgraphs ((hgraphs tenant).updates _ _)

theorem scoring_boostEdge (key : EdgeKey) : World.scoring.Obeys (e.boostEdge tenant key) := by
  rw [boostEdge_eq_boostEdgeRow]
  refine (scoring_transact ((TxAction.editable_stillness tenant).boostEdgeRow key) ?_).bind fun _ =>
    (scoring_announce _).bind fun _ => .ofOutcome _
  intro wall graphs hgraphs
  apply (makes_boostEdgeRow key).weaken
  rintro rated _ ⟨row, time, _, _, rfl⟩
  exact Write.scored_applyEachAt hgraphs ((hgraphs tenant).updates _ _)

theorem scoring_supersedeNode (old new : String) :
    World.scoring.Obeys (e.supersedeNode tenant old new) := by
  unfold supersedeNode
  split
  · exact .throw _
  · rename_i hne
    refine (scoring_transact ((TxAction.editable_stillness tenant).succeed old new) ?_).bind
      fun _ => (scoring_announce _).bind fun _ => .ofOutcome _
    intro wall graphs hgraphs
    apply (makes_succeed hne).weaken
    rintro rated _ ⟨row, successor, time, _, _, _, rfl⟩
    exact Write.scored_applyEachAt hgraphs ((hgraphs tenant).updates _ _)

theorem scoring_recordAccess (ids : List String) :
    World.scoring.Obeys (e.recordAccess tenant ids) := by
  unfold recordAccess
  dsimp only
  split
  · exact .pure []
  · refine (scoring_transact ((TxAction.editable_stillness tenant).count (distinct ids)) ?_).bind ?_
    · intro wall graphs hgraphs
      apply (makes_count ids).weaken
      rintro rated _ ⟨time, _, rfl⟩
      exact Write.scored_applyEachAt hgraphs ((hgraphs tenant).updates _ _)
    · intro rows
      split
      · exact (scoring_announce _).bind fun _ => .ofOutcome _
      · exact .ofOutcome _

/-! ### Sweeps -/

theorem scoring_sweepFrom (more : Nat) :
    ∀ cursor, World.scoring.Obeys (e.sweepFrom tenant more cursor) := by
  induction more with
  | zero => exact fun _ => .pure []
  | succ more ih =>
      intro cursor
      refine (scoring_transact ((TxAction.editable_stillness tenant).batch e cursor) ?_).bind ?_
      · intro wall graphs hgraphs
        apply (makes_batch e cursor).weaken
        rintro done _ ⟨time, _, rfl⟩
        exact Write.scored_applyEachAt hgraphs ((hgraphs tenant).refresh _ _ _)
      · intro done
        split
        · exact .pure [done]
        · exact (ih _).bind fun rest => .pure (done :: rest)

theorem scoring_recalculate : World.scoring.Obeys (e.recalculate tenant) := by
  have hsweep : World.scoring.Obeys (e.sweep tenant) :=
    World.scoring_of_keeps fun scope w => (scoring_sweepFrom e _ none).keeps scope w
  have hwithin : World.scoring.Obeys
      (Action.within (fun now scope => scope.child now e.config.sweep.deadlineMillis)
        (e.sweep tenant)) :=
    World.scoring_of_keeps fun scope w => hsweep.keeps _ w
  have hacquire : World.scoring.Obeys (acquire tenant) := by
    apply scoring_of_store
    intro scope w
    unfold acquire
    cases w.guard.acquire tenant w.clock <;> exact ⟨rfl, rfl⟩
  have hrelease : ∀ permit, World.scoring.Obeys (release permit) :=
    fun _ => scoring_of_store fun _ _ => ⟨rfl, rfl⟩
  apply hacquire.bind
  intro permit
  rw [Action.outcome_eq_attempt]
  refine Discipline.Obeys.bind (Discipline.Obeys.attempt ?_) fun result =>
    (hrelease permit).bind fun _ => .ofOutcome result
  apply hwithin.bind
  intro batches
  split
  · exact (scoring_announce _).bind fun _ => .pure _
  · exact .pure _

/-! ### All calls -/

theorem scoring_perform (call : Call) : World.scoring.Obeys (e.perform tenant call) := by
  cases call with
  | createNode node => exact (scoring_createNode e node).bind fun _ => .pure _
  | createEdge edge => exact (scoring_createEdge e edge).bind fun _ => .pure _
  | removeNode id => exact (scoring_removeNode id).bind fun _ => .pure _
  | removeEdge key => exact (scoring_removeEdge key).bind fun _ => .pure _
  | boostNode id => exact (scoring_boostNode e id).bind fun _ => .pure _
  | boostEdge key => exact (scoring_boostEdge e key).bind fun _ => .pure _
  | supersedeNode old new => exact (scoring_supersedeNode e old new).bind fun _ => .pure _
  | recordAccess ids => exact (scoring_recordAccess e ids).bind fun _ => .pure _
  | recalculate => exact (scoring_recalculate e).bind fun _ => .pure _
  | getNode | getEdge | neighbors | traverse | context | shortestPath | fullTextSearch
  | semanticSearch | hybridSearch =>
      exact scoring_of_still
        ((TxAction.editable_stillness tenant).perform e Action.still_transact_readOnly rfl)

/-- One call, whatever it meets and whatever becomes of it, leaves the committed graphs scored. -/
theorem scored_serve {w : World} (h : ∀ tenant, (w.store.tablesOf tenant).Scored) (o : Occasion) :
    ∀ tenant, ((e.serve o w).2.store.tablesOf tenant).Scored := by
  have harrived : (w.arrive o).Scored := ⟨o.alone, h⟩
  have hrun : (finalState (e.perform o.tenant o.call o.scope (w.arrive o))).Scored :=
    (scoring_perform e o.call).keeps o.scope (w.arrive o) harrived
  unfold serve
  cases hperform : e.perform o.tenant o.call o.scope (w.arrive o) with
  | ok answer v =>
      rw [hperform] at hrun
      exact hrun.committed
  | error f v =>
      rw [hperform] at hrun
      exact hrun.committed

theorem scored_serveAll (os : List Occasion) :
    ∀ {w : World}, (∀ tenant, (w.store.tablesOf tenant).Scored) →
      ∀ tenant, ((e.serveAll os w).2.store.tablesOf tenant).Scored := by
  induction os with
  | nil => exact fun h => h
  | cons o rest ih =>
      intro w h
      exact ih (scored_serve e h o)

/-- From an empty store, after any calls every committed salience is the score at the time of the
last update, whatever the calendar showed, and no node is its own successor. -/
theorem calls_keep_scores (w : World) (hstore : w.store.tables = ∅) (os : List Occasion)
    (tenant : Tenant) :
    let t := (e.serveAll os w).2.store.tablesOf tenant
    (∀ (id : String) (row : SealedNode), t.nodes[id]? = some row →
      row.relevance.salience = .ofFloat (row.relevance.score row.relevance.updatedAt) ∧
        row.relevance.supersededBy ≠ some row.id) ∧
      ∀ (key : EdgeKey) (row : SealedEdge), t.edges[key]? = some row →
        row.relevance.salience = .ofFloat (row.relevance.score row.relevance.updatedAt) := by
  have hempty : ∀ tenant, (w.store.tablesOf tenant).Scored := by
    intro tenant
    rw [Store.tablesOf, hstore, Std.ExtTreeMap.getD_empty]
    exact Tables.scored_empty
  have hscored := scored_serveAll e os hempty tenant
  exact ⟨fun _ _ hrow => ⟨(hscored.nodes hrow).scored, (hscored.nodes hrow).successor⟩,
    fun _ _ hrow => hscored.edges hrow⟩

/-- A node is created with some salience of the caller's, superseded, and then boosted while the
calendar has gone back by a year. -/
theorem calls_keep_scores_back_in_time :
    let e : Engine :=
      { nonce := fun _ => [], shuffle := fun _ ids => ids, shuffle_perm := fun _ _ => .refl _ }
    let w := World.start {} default
    let occasion (seconds : Int) (call : Call) : Occasion :=
      ⟨⟨"acme"⟩, call, .unbounded, 0, fun _ => ⟨seconds, 0⟩, 0, 0, {}, rfl⟩
    let rated : Relevance := { (default : Relevance) with salience := ⟨42⟩, accessCount := 7 }
    let person (id : String) : Call := .createNode ⟨id, "person", id, ∅, none, rated⟩
    let os := [occasion 1700000000 (person "a"), occasion 1700000000 (person "b"),
      occasion 1700000000 (.supersedeNode "a" "b"), occasion 1668000000 (.boostNode "a")]
    ∃ row, ((e.serveAll os w).2.store.tablesOf ⟨"acme"⟩).nodes["a"]? = some row ∧
      row.relevance.userBoosted = true ∧ row.relevance.supersededBy = some "b" ∧
        row.relevance.salience = .ofFloat (row.relevance.score row.relevance.updatedAt) := by
  intro e w occasion rated person os
  have hseen : ((((e.serveAll os w).2.store.tablesOf ⟨"acme"⟩).nodes["a"]?).any fun row =>
      row.relevance.userBoosted && row.relevance.supersededBy == some "b") = true := by
    decide +kernel
  obtain ⟨row, hrow, hmarks⟩ := (Option.any_eq_true _ _).1 hseen
  rw [Bool.and_eq_true, beq_iff_eq] at hmarks
  refine ⟨row, hrow, hmarks.1, hmarks.2, ?_⟩
  exact ((calls_keep_scores e w rfl os ⟨"acme"⟩).1 "a" row hrow).1

end Engine
end SalientGraph
