import SalientGraph.Proofs.Failures

/-!
# Announcements

A call that changes salience announces one event for all that it commits. Boosts,
successors and accesses are announced as soon as their transaction is committed, whatever
becomes of the call afterwards. A sweep commits batch by batch and announces the sum of
its changes in the end, so that nobody hears of the batches of a sweep that fails.
-/

namespace SalientGraph

/-- Whether the call changes salience. -/
def Call.isRating : Call → Bool
  | .boostNode _ | .boostEdge _ | .supersedeNode _ _ | .recordAccess _ | .recalculate => true
  | _ => false

variable {α β : Type}

/-! ## What is staged -/

/-- An answer tells whether the run has staged anything. -/
def TxAction.Writes (body : TxAction α) (described : α → Bool → Prop) : Prop :=
  ∀ scope s a t, body scope s = .ok a t →
    ∃ wrote, described a wrote ∧ t.tx.isClean = (s.tx.isClean && !wrote)

theorem Staging.isEmpty_stageUpdate {κ ρ : Type} {order : κ → κ → Ordering}
    [Std.TransCmp order] [Rated ρ] (staging : Staging κ ρ order) (key : κ) (u : RelevanceUpdate) :
    (staging.stageUpdate key u).isEmpty = false := by
  unfold stageUpdate
  exact Std.ExtTreeMap.isEmpty_eq_false_iff.2 Std.ExtTreeMap.insert_ne_empty

/-- A transaction that holds changes of a tenant is not clean. -/
theorem Transaction.isClean_insert {tx : Transaction} {tenant : Tenant} {c : Changes}
    (h : c.isEmpty = false) :
    Transaction.isClean { tx with changes := tx.changes.insert tenant c } = false := by
  unfold Transaction.isClean
  rw [List.all_eq_false]
  refine ⟨(tenant, c), ?_, by rw [h]; exact Bool.false_ne_true⟩
  rw [Std.ExtTreeMap.mem_toList_iff_getElem?_eq_some]
  exact Std.ExtTreeMap.getElem?_insert_self

namespace TxAction

namespace Writes

theorem pure {a : α} {described : α → Bool → Prop} (h : described a false) :
    Writes (Pure.pure a) described := by
  intro scope s b t hrun
  cases hrun
  exact ⟨false, h, by rw [Bool.not_false, Bool.and_true]⟩

theorem throw (f : Fault) {described : α → Bool → Prop} :
    Writes (MonadExcept.throw f : TxAction α) described := by
  intro scope s b t hrun
  cases hrun

theorem bind {act : TxAction α} {next : α → TxAction β} {described : α → Bool → Prop}
    {after : β → Bool → Prop} (h : Writes act described)
    (hnext : ∀ a wrote, described a wrote →
      Writes (next a) fun b more => after b (wrote || more)) :
    Writes (act >>= next) after := by
  intro scope s b u hrun
  obtain ⟨a, t, hfirst, hsecond⟩ := exists_of_bind_eq_ok hrun
  obtain ⟨wrote, hwrote, ht⟩ := h scope s a t hfirst
  obtain ⟨more, hmore, hu⟩ := hnext a wrote hwrote scope t b u hsecond
  refine ⟨wrote || more, hmore, ?_⟩
  rw [hu, ht, Bool.not_or, Bool.and_assoc]

theorem weaken {act : TxAction α} {described described' : α → Bool → Prop}
    (h : Writes act described) (himp : ∀ a wrote, described a wrote → described' a wrote) :
    Writes act described' := by
  intro scope s a t hrun
  obtain ⟨wrote, hwrote, ht⟩ := h scope s a t hrun
  exact ⟨wrote, himp a wrote hwrote, ht⟩

end Writes

/-- What acts on the world stages nothing. -/
theorem writes_inTransaction (act : Action α) :
    Writes (Action.inTransaction act) fun _ wrote => wrote = false := by
  intro scope s a t hrun
  unfold Action.inTransaction at hrun
  cases hact : act scope s.world with
  | ok b w =>
      rw [hact] at hrun
      cases hrun
      exact ⟨false, rfl, by rw [Bool.not_false, Bool.and_true]⟩
  | error f w =>
      rw [hact] at hrun
      cases hrun

/-- After what stages nothing, the rest tells whether anything is staged. -/
theorem Writes.after {act : TxAction α} {next : α → TxAction β} {described : β → Bool → Prop}
    (h : Writes act fun _ wrote => wrote = false) (hnext : ∀ a, Writes (next a) described) :
    Writes (act >>= next) described := by
  apply h.bind
  rintro a _ rfl
  exact (hnext a).weaken fun _ _ hb => hb

theorem Writes.step {act : TxAction α} {described : α → Bool → Prop} (h : Writes act described) :
    Writes (step act) described :=
  (writes_inTransaction Action.check).after fun _ => h

theorem writes_reading (r : Request) (tenant : Tenant) (answer : View → α) :
    Writes (reading r tenant answer) fun _ wrote => wrote = false := by
  apply (writes_inTransaction (Action.request r)).after
  intro _ scope s a t hrun
  cases hrun
  exact ⟨false, rfl, by rw [Bool.not_false, Bool.and_true]⟩

/-- A write that tells whether there was such an entry stages something just if there was. -/
theorem writes_writing (r : Request)
    {write : Store → Transaction → Except Fault (Bool × Transaction)}
    (hwrite : ∀ s tx present tx', write s tx = .ok (present, tx') →
      tx'.isClean = (tx.isClean && !present)) :
    Writes (writing r write) fun present wrote => wrote = present := by
  apply (writes_inTransaction (Action.request r)).after
  intro _ scope s present t hrun
  unfold stage at hrun
  cases hwritten : write s.world.store s.tx with
  | error f =>
      rw [hwritten] at hrun
      cases hrun
  | ok result =>
      rw [hwritten] at hrun
      cases hrun
      exact ⟨result.1, rfl, hwrite _ _ _ _ hwritten⟩

theorem writes_updateNode (tenant : Tenant) (id : String) (u : RelevanceUpdate) :
    Writes (updateNode tenant id u) fun present wrote => wrote = present := by
  apply writes_writing
  intro s tx present tx' hrun
  unfold Store.updateNode at hrun
  cases hcheck : tx.checkWritable with
  | error f =>
      rw [hcheck] at hrun
      cases hrun
  | ok _ =>
      rw [hcheck] at hrun
      cases hthere : ((s.view tx tenant).node? id).isSome with
      | false =>
          simp only [hthere] at hrun
          cases hrun
          rw [Bool.not_false, Bool.and_true]
      | true =>
          simp only [hthere] at hrun
          cases hrun
          rw [Bool.not_true, Bool.and_false]
          apply Transaction.isClean_insert
          rw [Changes.isEmpty, Staging.isEmpty_stageUpdate, Bool.false_and]

theorem writes_updateEdge (tenant : Tenant) (key : EdgeKey) (u : RelevanceUpdate) :
    Writes (updateEdge tenant key u) fun present wrote => wrote = present := by
  apply writes_writing
  intro s tx present tx' hrun
  unfold Store.updateEdge at hrun
  cases hcheck : tx.checkWritable with
  | error f =>
      rw [hcheck] at hrun
      cases hrun
  | ok _ =>
      rw [hcheck] at hrun
      cases hthere : ((s.view tx tenant).edge? key).isSome with
      | false =>
          simp only [hthere] at hrun
          cases hrun
          rw [Bool.not_false, Bool.and_true]
      | true =>
          simp only [hthere] at hrun
          cases hrun
          rw [Bool.not_true, Bool.and_false]
          apply Transaction.isClean_insert
          rw [Changes.isEmpty, Staging.isEmpty_stageUpdate, Bool.and_false]

/-- What is done to each element of a list stages something if it does so for any. -/
theorem writes_mapM {f : α → TxAction β} (said : β → Bool)
    (h : ∀ a, Writes (f a) fun b wrote => wrote = said b) (xs : List α) :
    Writes (xs.mapM f) fun bs wrote => wrote = bs.any said := by
  induction xs with
  | nil => exact .pure rfl
  | cons x xs ih =>
      rw [List.mapM_cons]
      apply (h x).bind
      rintro b _ rfl
      apply ih.bind
      rintro bs _ rfl
      refine .pure ?_
      rw [Bool.or_false, List.any_cons]

end TxAction

namespace Engine

open TxAction (Writes writes_inTransaction writes_reading writes_updateNode writes_updateEdge
  writes_mapM)

variable {tenant : Tenant}

theorem writes_requireRow (id : String) :
    Writes (requireRow tenant id) fun _ wrote => wrote = false := by
  apply (writes_reading .node tenant _).step.after
  intro row
  cases row with
  | none => exact .throw _
  | some row => exact .pure rfl

theorem writes_rateNode (row : SealedNode) (u : RelevanceUpdate) :
    Writes (rateNode tenant row u) fun _ wrote => wrote = true := by
  apply (writes_updateNode tenant row.id (u.plan row).1).step.bind
  rintro _ present rfl
  cases present with
  | false => exact .throw _
  | true => exact .pure rfl

theorem writes_boostRow (id : String) :
    Writes (boostRow tenant id) fun _ wrote => wrote = true :=
  (writes_requireRow id).after fun row => (writes_inTransaction Action.now).after fun _ =>
    writes_rateNode row _

theorem writes_boostEdgeRow (key : EdgeKey) :
    Writes (boostEdgeRow tenant key) fun _ wrote => wrote = true := by
  apply (writes_reading .edge tenant _).step.after
  intro row
  cases row with
  | none => exact .throw _
  | some row =>
      apply (writes_inTransaction Action.now).after
      intro now
      apply (writes_updateEdge tenant key _).step.bind
      rintro _ present rfl
      cases present with
      | false => exact .throw _
      | true => exact .pure rfl

theorem writes_succeed (old new : String) :
    Writes (succeed tenant old new) fun _ wrote => wrote = true := by
  apply (writes_requireRow old).after
  intro oldRow
  apply (writes_requireRow new).after
  intro newRow
  apply (writes_inTransaction Action.now).after
  intro now
  apply (writes_rateNode oldRow _).bind
  rintro rated _ rfl
  apply (writes_rateNode newRow _).bind
  rintro _ _ rfl
  exact .pure rfl

/-- Something is staged for every node that was found. -/
theorem writes_count (ids : List String) :
    Writes (count tenant ids) fun rated wrote => wrote = !rated.isEmpty := by
  apply (writes_reading .nodes tenant _).step.after
  intro rows
  apply (writes_inTransaction Action.now).after
  intro now
  apply (writes_mapM (fun _ => true) (fun row => writes_rateNode row _) rows).weaken
  rintro rated _ rfl
  cases rated <;> rfl

theorem writes_refresh (now : Timestamp) (row : SealedNode) :
    Writes (refresh tenant now row) fun changed wrote => wrote = changed := by
  unfold refresh
  cases row.relevance.refreshed? now with
  | none => exact .pure rfl
  | some fresh => exact (writes_updateNode tenant row.id _).step

/-- A batch stages something just if it has changed a salience. -/
theorem writes_batch (e : Engine) (cursor : Option String) :
    Writes (e.batch tenant cursor) fun done wrote => wrote = decide (0 < done.changed) := by
  apply (writes_reading .nodesAfter tenant _).step.after
  intro rows
  apply (writes_inTransaction Action.now).after
  intro now
  apply (writes_mapM id (writes_refresh now) rows).bind
  rintro changes _ rfl
  refine .pure ?_
  rw [Bool.or_false, Bool.eq_iff_iff, List.any_eq_true, decide_eq_true_iff, List.countP_pos_iff]

end Engine

/-! ## What comes to be seen -/

/-- So many transactions have published writes since, and these events have been announced. -/
structure World.Grows (v : World) (commits : Nat) (events : List ChangeEvent) (w : World) :
    Prop where
  conditions : w.conditions = v.conditions
  commits : w.store.commits = v.store.commits + commits
  announced : w.announced = v.announced ++ events

namespace World

variable {u v w : World} {n m : Nat} {events more : List ChangeEvent}

theorem Still.grows (h : v.Still w) (halone : v.conditions.others = []) : v.Grows 0 [] w :=
  ⟨h.conditions, h.commits halone, by rw [h.announced, List.append_nil]⟩

theorem Grows.trans (h : u.Grows n events v) (h' : v.Grows m more w) :
    u.Grows (n + m) (events ++ more) w := by
  refine ⟨h'.conditions.trans h.conditions, ?_, ?_⟩
  · rw [h'.commits, h.commits, Nat.add_assoc]
  · rw [h'.announced, h.announced, List.append_assoc]

theorem Grows.alone (h : v.Grows n events w) (halone : v.conditions.others = []) :
    w.conditions.others = [] := by
  rw [h.conditions]
  exact halone

/-- What is announced comes after what was announced before. -/
theorem Grows.announce (h : v.Grows n events w) (more : List ChangeEvent) :
    v.Grows n (events ++ more) { w with announced := w.announced ++ more } := by
  refine ⟨h.conditions, h.commits, ?_⟩
  rw [h.announced, List.append_assoc]

end World

/-- A commit counts if there is something to publish. -/
theorem Store.commits_commit (s : Store) (tx : Transaction) :
    (s.commit tx).commits = s.commits + (!tx.isClean).toNat := by
  unfold Store.commit
  cases tx.isClean <;> rfl

namespace Action

variable {body : TxAction α} {described : α → Bool → Prop} {scope : Scope} {v : World}

section
variable (hbody : Session.stillness.Obeys body) (hwrites : body.Writes described)
  (halone : v.conditions.others = [])
include hbody hwrites halone

/-- Alone, a transaction for writing fails and nothing of it is seen, or it is answered and counts
if it has staged anything. -/
theorem transact_grows (scope : Scope) :
    (∃ f w, transact .readWrite body scope v = .error f w ∧ v.Grows 0 [] w) ∨
      ∃ a wrote w, transact .readWrite body scope v = .ok a w ∧ described a wrote ∧
        v.Grows wrote.toNat [] w := by
  rcases transact_cases hbody scope v with ⟨f, w, hrun, hw⟩ | ⟨a, s, t, u, hbegun, hs, hu, hrun⟩
  · exact .inl ⟨f, w, hrun, hw.grows halone⟩
  · obtain ⟨wrote, hwrote, hclean⟩ := hwrites scope s a t hs
    have hkept : s.Still (finalState (body scope s)) := hbody.keeps scope s
    rw [hs] at hkept
    have hworld : v.Grows 0 [] u := ((hbegun.still.trans hkept.world).trans hu).grows halone
    have hnothing : s.tx.isClean = true := by
      simp [Transaction.isClean, hbegun.changes]
    rw [hnothing, Bool.true_and] at hclean
    refine .inr ⟨a, wrote, _, hrun, hwrote, hworld.conditions, ?_, hworld.announced⟩
    show (u.store.commit t.tx).commits = _
    rw [Store.commits_commit, hworld.commits, hclean, Bool.not_not, Nat.add_zero]

/-- What is told of as soon as it is committed is told of once, whatever follows. -/
theorem published_grows (tell : α → Action Unit) (events : α → List ChangeEvent) (scope : Scope)
    (htell : ∀ a u, tell a scope u = .ok () { u with announced := u.announced ++ events a })
    (hevents : ∀ a wrote, described a wrote → (events a).length = wrote.toNat)
    (outcome : α → Except Fault β) :
    ∃ n told, v.Grows n told (finalState (published body tell outcome scope v)) ∧
      told.length = min n 1 ∧ (told = [] ∨ ∃ a, told = events a) := by
  rcases transact_grows hbody hwrites halone scope with
    ⟨f, w, hrun, hw⟩ | ⟨a, wrote, w, hrun, hwrote, hw⟩
  · have hfailed : published body tell outcome scope v = .error f w := bind_of_error hrun
    rw [hfailed]
    exact ⟨0, [], hw, rfl, .inl rfl⟩
  · have hdone : published body tell outcome scope v =
        ofOutcome (outcome a) scope { w with announced := w.announced ++ events a } :=
      (bind_of_ok hrun).trans (bind_of_ok (htell a w))
    have hend : finalState (published body tell outcome scope v) =
        { w with announced := w.announced ++ events a } := by
      rw [hdone]
      cases outcome a <;> rfl
    rw [hend]
    refine ⟨wrote.toNat, [] ++ events a, hw.announce _, ?_, .inr ⟨a, List.nil_append _⟩⟩
    rw [List.nil_append, hevents a wrote hwrote]
    cases wrote <;> rfl

end

end Action

/-! ## Calls -/

/-- After a run one event more has been announced if something has been committed, and none
otherwise. -/
def World.Heard (tenant : Tenant) (v w : World) : Prop :=
  ∃ n told, v.Grows n told w ∧ told.length = min n 1 ∧ ∀ event ∈ told, event.tenant = tenant

/-- Where nothing happens, nothing is heard. -/
theorem World.Heard.refl {tenant : Tenant} (v : World) : World.Heard tenant v v :=
  ⟨0, [], ⟨rfl, rfl, (List.append_nil _).symm⟩, rfl, fun _ h => (List.not_mem_nil h).elim⟩

/-- After a run nothing more has been announced, whatever has been committed. -/
def World.Unheard (v w : World) : Prop :=
  ∃ n, v.Grows n [] w

namespace Engine

open SalientGraph.Action (transact_grows published published_grows bind_of_ok bind_of_error)

variable (e : Engine) {tenant : Tenant} {scope : Scope} {v : World}

section
variable (halone : v.conditions.others = [])
include halone

/-- One event is announced for what always stages something. -/
theorem heard_published {body : TxAction α} (hbody : Session.stillness.Obeys body)
    (hwrites : body.Writes fun _ wrote => wrote = true) {event : ChangeEvent}
    (hevent : event.tenant = tenant) (outcome : α → Except Fault β) :
    World.Heard tenant v
      (finalState (published body (fun _ => Action.announce event) outcome scope v)) := by
  obtain ⟨n, told, hgrows, hlength, htold⟩ := published_grows hbody hwrites halone
    (fun _ => Action.announce event) (fun _ => [event]) scope (fun _ _ => rfl)
    (by rintro _ _ rfl; rfl) outcome
  refine ⟨n, told, hgrows, hlength, ?_⟩
  intro other hother
  rcases htold with rfl | ⟨_, rfl⟩
  · exact (List.not_mem_nil hother).elim
  · rw [List.mem_singleton.1 hother, hevent]

theorem heard_boostNode (id : String) :
    World.Heard tenant v (finalState (e.boostNode tenant id scope v)) := by
  rw [boostNode_eq_boostRow]
  exact heard_published halone ((TxAction.editable_stillness tenant).boostRow id)
    (writes_boostRow id) rfl _

theorem heard_boostEdge (key : EdgeKey) :
    World.Heard tenant v (finalState (e.boostEdge tenant key scope v)) := by
  rw [boostEdge_eq_boostEdgeRow]
  exact heard_published halone ((TxAction.editable_stillness tenant).boostEdgeRow key)
    (writes_boostEdgeRow key) rfl _

theorem heard_supersedeNode (old new : String) :
    World.Heard tenant v (finalState (e.supersedeNode tenant old new scope v)) := by
  unfold supersedeNode
  split
  · exact .refl v
  · exact heard_published halone ((TxAction.editable_stillness tenant).succeed old new)
      (writes_succeed old new) rfl _

theorem heard_recordAccess (ids : List String) :
    World.Heard tenant v (finalState (e.recordAccess tenant ids scope v)) := by
  rw [recordAccess_eq_tellAccesses]
  split
  · exact .refl v
  · obtain ⟨n, told, hgrows, hlength, htold⟩ := published_grows
      ((TxAction.editable_stillness tenant).count (distinct ids)) (writes_count (distinct ids))
      halone _ _ scope (fun rows => tellAccesses_apply tenant (rows.map Node.id) scope)
      (by rintro rows _ rfl; cases rows <;> rfl) (e.openNodes tenant)
    refine ⟨n, told, hgrows, hlength, ?_⟩
    intro event hevent
    rcases htold with rfl | ⟨rows, rfl⟩
    · exact (List.not_mem_nil hevent).elim
    · cases rows with
      | nil => exact (List.not_mem_nil hevent).elim
      | cons row rows => rw [List.mem_singleton.1 hevent, ChangeEvent.tenant]

end

/-! ### Sweeps -/

theorem changesIn_cons (done : Batch) (batches : List Batch) :
    changesIn (done :: batches) = done.changed + changesIn batches := by
  have hfold : ∀ (batches : List Batch) (n : Nat),
      batches.foldl (fun n done => n + done.changed) n = n + changesIn batches := by
    intro batches
    induction batches with
    | nil => exact fun _ => rfl
    | cons done batches ih =>
        intro n
        unfold changesIn
        rw [List.foldl_cons, List.foldl_cons, ih, ih, Nat.zero_add, Nat.add_assoc]
  show List.foldl _ (0 + done.changed) batches = _
  rw [hfold, Nat.zero_add]

/-- While a sweep is under way nothing is announced. If it has an answer, something was committed
just if something has changed. -/
theorem sweepFrom_grows (more : Nat) :
    ∀ (cursor : Option String) {v : World}, v.conditions.others = [] →
      (∃ n f w, e.sweepFrom tenant more cursor scope v = .error f w ∧ v.Grows n [] w) ∨
        ∃ n batches w, e.sweepFrom tenant more cursor scope v = .ok batches w ∧
          v.Grows n [] w ∧ (0 < n ↔ 0 < changesIn batches) := by
  induction more with
  | zero =>
      intro cursor v _
      exact .inr ⟨0, [], v, rfl, ⟨rfl, rfl, (List.append_nil _).symm⟩, Iff.rfl⟩
  | succ more ih =>
      intro cursor v halone
      unfold sweepFrom
      have hbody := (TxAction.editable_stillness tenant).batch e cursor
      rcases transact_grows hbody (writes_batch e cursor) halone scope with
        ⟨f, w, hrun, hw⟩ | ⟨done, _, w, hrun, rfl, hw⟩
      · exact .inl ⟨0, f, w, bind_of_error hrun, hw⟩
      · rw [bind_of_ok hrun]
        have hfirst : 0 < (decide (0 < done.changed)).toNat ↔ 0 < done.changed := by
          cases done.changed <;> simp
        split
        · refine .inr ⟨_, [done], w, rfl, hw, ?_⟩
          rw [changesIn_cons]
          exact hfirst
        · rcases ih done.ids.getLast? (hw.alone halone) with
            ⟨n, f, u, hrest, hu⟩ | ⟨n, batches, u, hrest, hu, hn⟩
          · exact .inl ⟨_, f, u, bind_of_error hrest, hw.trans hu⟩
          · refine .inr ⟨_, done :: batches, u, bind_of_ok hrest, hw.trans hu, ?_⟩
            rw [changesIn_cons]
            omega

/-- A sweep that fails is not heard of, and one that has an answer is. -/
theorem sweeping_grows (scope : Scope) (halone : v.conditions.others = []) :
    (∃ f w, e.sweeping tenant scope v = .error f w ∧ v.Unheard w) ∨
      ∃ k w, e.sweeping tenant scope v = .ok k w ∧ World.Heard tenant v w := by
  have hsweep := @sweepFrom_grows e tenant (scope.child v.clock e.config.sweep.deadlineMillis)
    (v.store.nodeCount tenant + v.conditions.nodesWritten tenant + 1) none v halone
  rcases hsweep with ⟨n, f, w, hrun, hw⟩ | ⟨n, batches, w, hrun, hw, hn⟩
  · exact .inl ⟨f, w, sweeping_of_error e hrun, n, hw⟩
  · refine .inr ⟨_, _, sweeping_of_ok e hrun, n, changesTold tenant (changesIn batches),
      hw.announce _, ?_, fun _ => tenant_of_mem_changesTold⟩
    rw [length_changesTold]
    omega

/-- The permit is nothing that anybody hears of. -/
theorem recalculate_grows (scope : Scope) (halone : v.conditions.others = []) :
    (∃ f w, e.recalculate tenant scope v = .error f w ∧ v.Unheard w) ∨
      ∃ k w, e.recalculate tenant scope v = .ok k w ∧ World.Heard tenant v w := by
  cases hholder : v.guard.holder? tenant with
  | some n =>
      have hheld : (v.guard.holder? tenant).isSome = true := by rw [hholder]; rfl
      rw [recalculate_eq]
      exact .inl ⟨_, v, bind_of_error (acquire_apply_of_held hheld scope), 0, rfl, rfl,
        (List.append_nil _).symm⟩
  | none =>
      obtain ⟨g, -, hrecalculate⟩ := recalculate_of_free e hholder
      rw [(hrecalculate scope).2]
      rcases sweeping_grows e (v := { v with guard := g }) scope halone with
        ⟨f, w, hrun, n, hw⟩ | ⟨k, w, hrun, n, told, hw, htold⟩
      · rw [hrun]
        exact .inl ⟨f, _, rfl, n, hw.conditions, hw.commits, hw.announced⟩
      · rw [hrun]
        exact .inr ⟨k, _, rfl, n, told, ⟨hw.conditions, hw.commits, hw.announced⟩, htold⟩

/-! ### All of them -/

/-- To put an answer in another form leaves the world as it is. -/
theorem finalState_map {act : Action α} {form : α → β} :
    finalState ((act >>= fun a => pure (form a)) scope v) = finalState (act scope v) := by
  cases hrun : act scope v with
  | ok a w => rw [bind_of_ok hrun]; rfl
  | error f w => rw [bind_of_error hrun]; rfl

/-- What is not a sweep is heard of if it has committed something. -/
theorem heard_perform (halone : v.conditions.others = []) {call : Call}
    (hcall : call.isRating = true) (hsweep : call ≠ .recalculate) :
    World.Heard tenant v (finalState (e.perform tenant call scope v)) := by
  cases call with
  | boostNode id =>
      rw [perform, finalState_map]
      exact heard_boostNode e halone id
  | boostEdge key =>
      rw [perform, finalState_map]
      exact heard_boostEdge e halone key
  | supersedeNode old new =>
      rw [perform, finalState_map]
      exact heard_supersedeNode e halone old new
  | recordAccess ids =>
      rw [perform, finalState_map]
      exact heard_recordAccess e halone ids
  | recalculate => exact absurd rfl hsweep
  | createNode | createEdge | getNode | getEdge | removeNode | removeEdge | neighbors | traverse
  | context | shortestPath | fullTextSearch | semanticSearch | hybridSearch => contradiction

/-- A sweep that fails is not heard of. Any other call that changes salience is heard of if it has
committed something. -/
theorem perform_grows (tenant : Tenant) (scope : Scope) (halone : v.conditions.others = [])
    {call : Call} (hcall : call.isRating = true) :
    (∃ f w, call = .recalculate ∧ e.perform tenant call scope v = .error f w ∧ v.Unheard w) ∨
      (∀ f w, ¬ (call = .recalculate ∧ e.perform tenant call scope v = .error f w)) ∧
        World.Heard tenant v (finalState (e.perform tenant call scope v)) := by
  by_cases hsweep : call = .recalculate
  · subst hsweep
    rcases recalculate_grows e scope halone with ⟨f, w, hrun, hw⟩ | ⟨k, w, hrun, hw⟩
    · exact .inl ⟨f, w, rfl, bind_of_error hrun, hw⟩
    · have hdone : e.perform tenant .recalculate scope v = .ok (.changed k) w := bind_of_ok hrun
      rw [hdone]
      refine .inr ⟨?_, hw⟩
      rintro f u ⟨_, hfailed⟩
      cases hfailed
  · exact .inr ⟨fun _ _ h => hsweep h.1, heard_perform e halone hcall hsweep⟩

end Engine

/-! ## Series of calls -/

theorem World.Grows.drop_announced {v w : World} {n : Nat} {events : List ChangeEvent}
    (h : v.Grows n events w) : w.announced.drop v.announced.length = events := by
  rw [h.announced, List.drop_left]

namespace Engine

variable (e : Engine)

/-- What comes of a call is what comes of the run that serves it. -/
theorem serve_eq (o : Occasion) (w : World) :
    let r := e.perform o.tenant o.call o.scope (w.arrive o)
    e.serve o w =
      (⟨o.tenant, outcomeOf r, (finalState r).announced.drop w.announced.length⟩,
        finalState r) := by
  unfold serve
  cases e.perform o.tenant o.call o.scope (w.arrive o) <;> rfl

/-- In every series of calls, whatever the store holds in the beginning, however long each request
to it takes, whether or not it fails, and whenever the scope of a call is over: a call that changes
salience announces one event at most, of its own tenant, and it announces one just if it has
committed a transaction with an update, unless it is a recalculation that fails. -/
theorem commits_are_announced_unless_a_sweep_fails (w : World) (before : List Occasion)
    (o : Occasion) (hcall : o.call.isRating = true) :
    let v := (e.serveAll before w).2
    let reply := (e.serve o v).1
    let after := (e.serve o v).2
    (reply.events = [] ∨ ∃ event, reply.events = [event] ∧ event.tenant = o.tenant) ∧
      (reply.events ≠ [] ↔ v.store.commits < after.store.commits ∧
        ¬ (o.call = .recalculate ∧ ∃ f, reply.outcome = .error f)) := by
  intro v reply after
  have halone : (v.arrive o).conditions.others = [] := o.alone
  have hserve := e.serve_eq o v
  have hafter : after = finalState (e.perform o.tenant o.call o.scope (v.arrive o)) :=
    congrArg Prod.snd hserve
  have hevents : reply.events = after.announced.drop v.announced.length := by
    rw [hafter]
    exact congrArg (·.1.events) hserve
  have houtcome : reply.outcome =
      outcomeOf (e.perform o.tenant o.call o.scope (v.arrive o)) :=
    congrArg (·.1.outcome) hserve
  rcases perform_grows e o.tenant o.scope halone hcall with
    ⟨f, u, hsweep, hrun, n, hu⟩ | ⟨hanswered, n, told, hgrows, hlength, htenant⟩
  · have hnone : reply.events = [] := by
      rw [hevents, hafter, hrun]
      exact hu.drop_announced
    have hfailed : reply.outcome = .error f := by rw [houtcome, hrun, outcomeOf]
    exact ⟨.inl hnone, fun h => absurd hnone h, fun h => absurd ⟨hsweep, f, hfailed⟩ h.2⟩
  · have htold : reply.events = told := by
      rw [hevents, hafter]
      exact hgrows.drop_announced
    have hcommits : after.store.commits = v.store.commits + n := by
      rw [hafter]
      exact hgrows.commits
    have hanswer : ¬ (o.call = .recalculate ∧ ∃ f, reply.outcome = .error f) := by
      rintro ⟨hsweep, f, hfailed⟩
      rw [houtcome] at hfailed
      cases hrun : e.perform o.tenant o.call o.scope (v.arrive o) with
      | ok a u =>
          rw [hrun] at hfailed
          cases hfailed
      | error g u => exact hanswered g u ⟨hsweep, hrun⟩
    rw [htold, hcommits]
    constructor
    · match told, hlength, htenant with
      | [], _, _ => exact .inl rfl
      | [event], _, htenant => exact .inr ⟨event, rfl, htenant event List.mem_cons_self⟩
      | _ :: _ :: _, hlength, _ =>
          rw [List.length_cons, List.length_cons] at hlength
          omega
    · rw [← List.length_pos_iff, hlength]
      constructor
      · intro h
        exact ⟨by omega, hanswer⟩
      · rintro ⟨h, _⟩
        omega

/-- Accesses to two nodes and a missing one are counted. They are announced at once, although the call
then fails as a payload cannot be opened. -/
theorem commits_are_announced_unless_a_sweep_fails_before_opening :
    let e : Engine :=
      { nonce := fun _ => [], shuffle := fun _ ids => ids, shuffle_perm := fun _ _ => .refl _ }
    let node (id : String) : SealedNode := ⟨id, "concept", id, ⟨[0xff]⟩, none, default⟩
    let tx := ((Store.begin {} .readWrite).1.stageNode ⟨"acme"⟩ "a" (.put (node "a"))).stageNode
      ⟨"acme"⟩ "b" (.put (node "b"))
    let w : World := { World.start {} default with store := Store.commit {} tx }
    let call : Call := .recordAccess ["b", "none", "a", "b"]
    let o : Occasion := ⟨⟨"acme"⟩, call, .unbounded, 0, w.wall, 0, 0, {}, rfl⟩
    call.isRating = true ∧ (e.serve o w).1.outcome = .error .malformed ∧
      w.store.commits < (e.serve o w).2.store.commits ∧
      ∃ event, (e.serve o w).1.events = [event] ∧ event.tenant = ⟨"acme"⟩ := by
  intro e node tx w call o
  obtain ⟨hevents, hannounced⟩ := commits_are_announced_unless_a_sweep_fails e w [] o rfl
  have hcommits : w.store.commits < (e.serve o w).2.store.commits := by decide +kernel
  have hfault : fault? (e.perform o.tenant o.call o.scope (w.arrive o)) = some .malformed := by
    decide +kernel
  have houtcome : (e.serve o w).1.outcome = .error .malformed := by
    rw [serve_eq, eq_error_of_fault? hfault]
    rfl
  refine ⟨rfl, houtcome, hcommits, hevents.resolve_left (hannounced.2 ⟨hcommits, ?_⟩)⟩
  rintro ⟨hsweep, _⟩
  cases hsweep

end Engine
end SalientGraph
