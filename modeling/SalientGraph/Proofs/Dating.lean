import SalientGraph.Proofs.Instants
import SalientGraph.Proofs.Undisturbed

/-!
# When batches are dated

A batch of a sweep reads the calendar once, after it has read its nodes, and rates all of
them for what it reads there. Time does not run backwards, so this is some time between
the start of its transaction and the end of it, whichever of its requests takes how long.
-/

namespace SalientGraph

variable {tenant : Tenant} {since : Nat}

/-! ## Time does not run backwards -/

/-- No wait ends before it has begun. -/
theorem Scope.le_wait (s : Scope) (now duration : Nat) : now ≤ (s.wait now duration).2 := by
  rcases s.wait_cases now duration with hwait | ⟨f, time, hwait, _⟩
  · rw [hwait]
    exact Nat.le_add_right now duration
  · rw [hwait]
    exact Nat.le_max_left now time

/-- It is a certain time or later. -/
def World.Since (since : Nat) (w : World) : Prop :=
  since ≤ w.clock

/-- In the world of a session, it is a certain time or later. -/
def Session.Since (since : Nat) (s : Session) : Prop :=
  s.world.Since since

namespace Action

theorem wait_since (duration : Nat) :
    Meets (wait duration) (World.Since since) (fun _ => World.Since since)
      (fun _ => World.Since since) := by
  intro scope w hw
  have hlater : since ≤ (scope.wait w.clock duration).2 :=
    Nat.le_trans hw (scope.le_wait w.clock duration)
  unfold wait
  cases hwait : scope.wait w.clock duration with
  | mk outcome time =>
      rw [hwait] at hlater
      cases outcome with
      | ok _ => exact hlater
      | error f => exact hlater

theorem request_since (r : Request) :
    Meets (request r) (World.Since since) (fun _ => World.Since since)
      (fun _ => World.Since since) := by
  intro scope w hw
  rw [request_apply]
  have hserved : World.Since since
    { w with served := w.served + 1, store := w.conditions.meanwhile w.served w.store } := hw
  apply (wait_since (w.conditions.delay w.served r)).bind _ scope _ hserved
  intro _
  cases w.conditions.failure w.served r with
  | some reason => exact .throw fun _ h => h
  | none => exact .pure fun _ h => h

theorem begin_since (access : Access) :
    Meets (begin access) (World.Since since) (fun tx w => Session.Since since ⟨w, tx⟩)
      (fun _ => World.Since since) :=
  (request_since .begin).bind fun _ _ _ hw => hw

theorem commit_since (tx : Transaction) :
    Meets (commit tx) (World.Since since) (fun _ => World.Since since)
      (fun _ => World.Since since) :=
  (request_since .commit).bind fun _ _ _ hw => hw

end Action

namespace Engine

open SalientGraph.Action (begin_since commit_since request_since)

theorem refresh_since (now : Timestamp) (row : SealedNode) :
    Meets (refresh tenant now row) (Session.Since since) (fun _ => Session.Since since)
      (fun _ => Session.Since since) := by
  unfold refresh
  cases row.relevance.refreshed? now with
  | none => exact .pure fun _ h => h
  | some fresh =>
      exact .step (fun _ _ h => h)
        (.writing (fun _ => request_since .updateNode) (fun _ _ h => h) fun _ _ _ h _ => h)

variable (e : Engine)

/-- A batch is dated no earlier than it has begun, and no later than it has ended. -/
theorem batchDated_since (cursor : Option String) :
    Meets (e.batchDated tenant cursor) (Session.Since since)
      (fun done s => since ≤ done.2 ∧ s.Since done.2) (fun _ => Session.Since since) := by
  apply (Meets.step (fun _ _ h => h) (Meets.reading _ fun _ => request_since .nodesAfter)).bind
  intro rows
  have hdated : Meets dated (Session.Since since) (fun date s => since ≤ date.1 ∧ s.Since date.1)
      (fun _ => Session.Since since) := fun _ _ hs => ⟨hs, Nat.le_refl _⟩
  apply (hdated.weaken (fun _ h => h.2) (fun _ _ h => h) fun _ _ h => h).bind
  rintro ⟨time, now⟩
  -- from here on the date is fixed, and only the end of the batch moves on
  apply Meets.given
  intro hsince
  have hrefreshed := Meets.mapM (@refresh_since tenant time now) rows
  apply (hrefreshed.weaken (fun _ h => h) (fun _ _ h => h)
    fun _ _ h => Nat.le_trans hsince h).bind
  exact fun changes => .pure fun _ h => ⟨hsince, h⟩

theorem transact_batchDated_since (cursor : Option String) :
    Meets (Action.transact .readWrite (e.batchDated tenant cursor)) (World.Since since)
      (fun done w => since ≤ done.2 ∧ w.Since done.2) (fun _ => World.Since since) := by
  refine .transact (fun _ _ h => h) (begin_since .readWrite) (e.batchDated_since cursor) ?_
    fun _ => request_since .rollback
  intro done tx
  apply Meets.given
  intro hsince
  exact (commit_since tx).weaken (fun _ h => h) (fun _ _ h => ⟨hsince, h⟩)
    fun _ _ h => Nat.le_trans hsince h

theorem still_batchDated (cursor : Option String) :
    Session.stillness.Obeys (e.batchDated tenant cursor) := by
  have h := TxAction.editable_stillness tenant
  have hdated : Session.stillness.Obeys dated := .of_keeps fun _ s => Session.Still.refl s
  exact (h.step (h.reading _ _)).bind fun rows => hdated.bind fun date =>
    (Discipline.Obeys.mapM (h.refresh date.2) rows).bind fun _ => .pure _

/-! ## One batch -/

end Engine

/-- Whether there is such a node and its salience is not its score. -/
def Tables.isStale (now : Timestamp) (t : Tables) (id : String) : Bool :=
  t.nodes[id]?.any fun row => (row.relevance.refreshed? now).isSome

/-- As many nodes of a page are rated anew as are stale. -/
theorem Tables.WellKeyed.length_stale {t : Tables} (ht : t.WellKeyed) (now : Timestamp)
    (cursor : Option String) (limit : Nat) :
    (Rating.stale now (t.view.nodesAfter cursor limit)).length =
      (page t.nodes.keys cursor limit).countP (t.isStale now) := by
  rw [← ht.map_id_nodesAfter, List.countP_map, Rating.stale, List.length_map,
    ← List.countP_eq_length_filter]
  apply List.countP_congr
  intro row hrow
  rw [Function.comp_apply, Tables.isStale, ht.found_of_mem_nodesAfter hrow]
  rfl

namespace Engine

open SalientGraph.Action (bind_of_error bind_of_ok transact_makes)

variable (e : Engine) {w : World}

/-- Alone, a batch fails and leaves the world still, or it rates the nodes of its page anew, all of
them for one time while it runs. -/
theorem transact_batch_cases (halone : w.conditions.others = []) (hkeyed : w.store.WellKeyed)
    (cursor : Option String) (scope : Scope) :
    let t := w.store.tablesOf tenant
    let ids := page t.nodes.keys cursor e.batchSize
    let run := Action.transact .readWrite (e.batch tenant cursor) scope w
    (∃ f v, run = .error f v ∧ w.Still v ∧ v.Since w.clock) ∨
      ∃ time v, run = .ok ⟨ids, ids.countP (t.isStale (w.wall time))⟩ v ∧
        w.clock ≤ time ∧ v.Since time ∧
        w.Becomes (changedAt tenant (Tables.refreshNodes (w.wall time) (· ∈ ids))
          w.store.tablesOf) [] v := by
  dsimp only
  have hsince := @transact_batchDated_since tenant w.clock e cursor scope w (Nat.le_refl w.clock)
  rw [batch_eq_map_batchDated, Action.transact_map, map_eq_pure_bind]
  rcases transact_makes (e.still_batchDated cursor) (makes_batchDated e cursor) halone hkeyed scope
    with ⟨f, v, hrun, hv⟩ | ⟨⟨done, time⟩, _, v, hrun, ⟨hdone, rfl⟩, hv⟩
  · rw [hrun] at hsince
    exact .inl ⟨f, v, bind_of_error hrun, hv, hsince⟩
  · -- the rows that the batch has read are those of the page, and rating them rates their nodes
    rw [hrun] at hsince
    rw [(hkeyed tenant).map_id_nodesAfter, (hkeyed tenant).length_stale] at hdone
    rw [Write.applyEachAt_eq_changedAt ((hkeyed tenant).applyEach_stale cursor _)] at hv
    refine .inr ⟨time, v, ?_, hsince.1, hsince.2, hv⟩
    rw [bind_of_ok hrun, ← hdone]
    rfl

end Engine
end SalientGraph
