import SalientGraph.Proofs.Confinement

/-!
# The engine is confined

Every operation of the engine on the graph of a tenant concerns that tenant only: what it
answers depends on nothing of others, and it leaves everything of others as it was. A
sweep holds the permit of its tenant meanwhile and returns it in any case, under
whatever number.
-/

namespace SalientGraph
namespace Engine

open SalientGraph.Action (Confined confined_transact confined_announce confined_ofOutcome)

variable (e : Engine) {tenant : Tenant}

/-- Whatever edits the graph of a tenant is confined to it. -/
theorem editable_confinement (tenant : Tenant) :
    Editable tenant (World.confinement tenant) (Session.confinement tenant .readWrite) where
  toReadable := TxAction.readable_confinement tenant .readWrite
  now := Action.confined_now
  putRow := TxAction.confined_putNode
  deleteRow := TxAction.confined_deleteNode
  updateRow := TxAction.confined_updateNode
  putEdgeRow := TxAction.confined_putEdge
  deleteEdgeRow := TxAction.confined_deleteEdge
  updateEdgeRow := TxAction.confined_updateEdge
  deleteEdgesTouching := TxAction.confined_deleteEdgesTouching

/-- To seal a payload concerns nobody, whoever owns it. -/
theorem confined_sealPayload (owner : Tenant) (properties : Properties) :
    Confined tenant (e.sealPayload owner properties) :=
  (editable_confinement tenant).sealPayload e owner properties

/-! ## Entries -/

theorem confined_createNode (node : OpenNode) : Confined tenant (e.createNode tenant node) :=
  have h := editable_confinement tenant
  confined_transact (h.step (h.putNode e node))

theorem confined_createEdge (edge : OpenEdge) : Confined tenant (e.createEdge tenant edge) :=
  have h := editable_confinement tenant
  confined_transact (h.step (h.putEdge e edge))

theorem confined_removeNode (id : String) : Confined tenant (removeNode tenant id) :=
  have h := editable_confinement tenant
  confined_transact (h.step (h.deleteNode id))

theorem confined_removeEdge (key : EdgeKey) : Confined tenant (removeEdge tenant key) :=
  have h := editable_confinement tenant
  confined_transact (h.step (h.deleteEdgeRow key))

/-! ## Boosts, successors and accesses -/

theorem confined_boostNode (id : String) : Confined tenant (e.boostNode tenant id) := by
  rw [boostNode_eq_boostRow]
  apply (confined_transact ((editable_confinement tenant).boostRow id)).bind
  exact fun _ => (confined_announce _).bind fun _ => confined_ofOutcome _

theorem confined_boostEdge (key : EdgeKey) : Confined tenant (e.boostEdge tenant key) := by
  rw [boostEdge_eq_boostEdgeRow]
  apply (confined_transact ((editable_confinement tenant).boostEdgeRow key)).bind
  exact fun _ => (confined_announce _).bind fun _ => confined_ofOutcome _

theorem confined_supersedeNode (old new : String) :
    Confined tenant (e.supersedeNode tenant old new) := by
  unfold supersedeNode
  split
  · exact .throw _
  · apply (confined_transact ((editable_confinement tenant).succeed old new)).bind
    exact fun _ => (confined_announce _).bind fun _ => confined_ofOutcome _

theorem confined_recordAccess (ids : List String) :
    Confined tenant (e.recordAccess tenant ids) := by
  unfold recordAccess
  dsimp only
  split
  · exact .pure []
  · apply (confined_transact ((editable_confinement tenant).count _)).bind
    intro rows
    split
    · exact (confined_announce _).bind fun _ => confined_ofOutcome _
    · exact confined_ofOutcome _

/-! ## Sweeps -/

theorem confined_sweepFrom (more : Nat) :
    ∀ cursor : Option String, Confined tenant (e.sweepFrom tenant more cursor) := by
  induction more with
  | zero => exact fun _ => .pure []
  | succ more ih =>
      intro cursor
      unfold sweepFrom
      apply (confined_transact ((editable_confinement tenant).batch e cursor)).bind
      intro done
      split
      · exact .pure [done]
      · exact (ih done.ids.getLast?).bind fun rest => .pure (done :: rest)

/-- How many batches there can be depends on the tenant's own nodes. -/
theorem confined_sweep : Confined tenant (e.sweep tenant) where
  agree b scope {v w} h := by
    unfold sweep
    have hcount : v.store.nodeCount tenant = w.store.nodeCount tenant := by
      unfold Store.nodeCount
      rw [h.tables]
    -- others' writes are counted from the conditions, which are the same
    rw [hcount, h.conditions]
    exact (confined_sweepFrom e _ none).agree b scope h
  keeps scope w := (confined_sweepFrom e _ none).keeps scope w

/-- What is done to sweep a tenant while its permit is held. -/
def sweeping (tenant : Tenant) : Action Nat := do
  let batches ← Action.within (fun now scope => scope.child now e.config.sweep.deadlineMillis)
    (e.sweep tenant)
  if 0 < changesIn batches then
    Action.announce (.salienceRecalculated tenant (changesIn batches))
  return changesIn batches

theorem recalculate_eq (tenant : Tenant) : e.recalculate tenant = (do
    let permit ← acquire tenant
    let result ← Action.outcome (e.sweeping tenant)
    release permit
    Action.ofOutcome result) := rfl

/-- What is announced of a sweep that has made some changes. -/
def changesTold (tenant : Tenant) (changes : Nat) : List ChangeEvent :=
  if 0 < changes then [.salienceRecalculated tenant changes] else []

theorem length_changesTold (tenant : Tenant) (changes : Nat) :
    (changesTold tenant changes).length = min changes 1 := by
  unfold changesTold
  split
  · rw [List.length_singleton]
    omega
  · rw [List.length_nil]
    omega

theorem tenant_of_mem_changesTold {changes : Nat} {event : ChangeEvent}
    (h : event ∈ changesTold tenant changes) : event.tenant = tenant := by
  unfold changesTold at h
  split at h
  · rw [List.mem_singleton.1 h, ChangeEvent.tenant]
  · contradiction

theorem sweeping_of_ok {scope : Scope} {v u : World} {batches : List Batch}
    (h : e.sweep tenant (scope.child v.clock e.config.sweep.deadlineMillis) v = .ok batches u) :
    e.sweeping tenant scope v = .ok (changesIn batches)
      { u with announced := u.announced ++ changesTold tenant (changesIn batches) } := by
  have hswept : e.sweeping tenant scope v = _ := Action.bind_of_ok h
  rw [hswept, changesTold]
  by_cases hchanged : 0 < changesIn batches
  · rw [if_pos hchanged, if_pos hchanged]
    rfl
  · rw [if_neg hchanged, if_neg hchanged, List.append_nil]
    rfl

theorem sweeping_of_error {scope : Scope} {v u : World} {f : Fault}
    (h : e.sweep tenant (scope.child v.clock e.config.sweep.deadlineMillis) v = .error f u) :
    e.sweeping tenant scope v = .error f u :=
  Action.bind_of_error h

theorem confined_sweeping (tenant : Tenant) : Confined tenant (e.sweeping tenant) := by
  apply (Action.Confined.within (confined_sweep e) _).bind
  intro batches
  split
  · exact (confined_announce _).bind fun _ => .pure _
  · exact .pure _

theorem acquire_apply_of_held {w : World} (h : (w.guard.holder? tenant).isSome = true)
    (scope : Scope) : acquire tenant scope w =
      .error (.conflict ("salience recalculation already running for tenant " ++ tenant.name)) w := by
  unfold acquire
  rw [Guard.acquire_of_held h]

theorem acquire_apply_of_free {w : World} (h : w.guard.holder? tenant = none) (scope : Scope) :
    ∃ g, acquire tenant scope w = .ok ⟨tenant, w.guard.issued⟩ { w with guard := g } ∧
      ∀ other, g.holder? other =
        if other = tenant then some w.guard.issued else w.guard.holder? other := by
  obtain ⟨g, hacquire, hholder⟩ := Guard.acquire_of_free h w.clock
  refine ⟨g, ?_, hholder⟩
  unfold acquire
  rw [hacquire]

theorem outcome_apply {α : Type} (act : Action α) (scope : Scope) (w : World) :
    ∃ r v, Action.outcome act scope w = .ok r v := by
  unfold Action.outcome
  cases act scope w with
  | ok a v => exact ⟨_, _, rfl⟩
  | error f v => exact ⟨_, _, rfl⟩

/-- A world in which the permit that is in use goes back. -/
def released (permit : Permit) (w : World) : World :=
  { w with guard := w.guard.release permit w.clock }

theorem holder?_released {w : World} {number : Nat}
    (h : w.guard.holder? tenant = some number) :
    (released ⟨tenant, number⟩ w).guard.holder? tenant = none := by
  show (w.guard.release ⟨tenant, number⟩ w.clock).holder? tenant = none
  rw [Guard.holder?_release]
  exact if_pos ⟨rfl, h⟩

/-- Where no permit is in use, one is while the tenant is swept, and it goes back whatever became of
the sweep. -/
theorem recalculate_of_free {w : World} (h : w.guard.holder? tenant = none) :
    ∃ g : Guard, (∀ other, g.holder? other =
        if other = tenant then some w.guard.issued else w.guard.holder? other) ∧
      ∀ scope, acquire tenant scope w = .ok ⟨tenant, w.guard.issued⟩ { w with guard := g } ∧
        e.recalculate tenant scope w =
          match e.sweeping tenant scope { w with guard := g } with
          | .ok n u => .ok n (released ⟨tenant, w.guard.issued⟩ u)
          | .error f u => .error f (released ⟨tenant, w.guard.issued⟩ u) := by
  obtain ⟨g, hacquire, hg⟩ := acquire_apply_of_free h .unbounded
  refine ⟨g, hg, ?_⟩
  intro scope
  -- to take a permit is not a matter of the scope
  have hacquire' : acquire tenant scope w = _ := hacquire
  refine ⟨hacquire', ?_⟩
  rw [recalculate_eq, Action.bind_of_ok hacquire']
  cases hrun : e.sweeping tenant scope { w with guard := g } with
  | ok n u =>
      have houtcome : Action.outcome (e.sweeping tenant) scope { w with guard := g } =
          .ok (.ok n) u := by
        unfold Action.outcome
        rw [hrun]
      rw [Action.bind_of_ok houtcome]
      rfl
  | error f u =>
      have houtcome : Action.outcome (e.sweeping tenant) scope { w with guard := g } =
          .ok (.error f) u := by
        unfold Action.outcome
        rw [hrun]
      rw [Action.bind_of_ok houtcome]
      rfl

/-- A sweep that is answered has taken the permit, come to its end and returned the permit, and its
answer counts the changes of its batches. -/
theorem recalculate_eq_ok {scope : Scope} {w v : World} {n : Nat}
    (h : e.recalculate tenant scope w = .ok n v) :
    w.guard.holder? tenant = none ∧ ∃ (g : Guard) (batches : List Batch) (u : World),
      (∀ other, g.holder? other =
        if other = tenant then some w.guard.issued else w.guard.holder? other) ∧
      acquire tenant scope w = .ok ⟨tenant, w.guard.issued⟩ { w with guard := g } ∧
      e.sweep tenant (scope.child w.clock e.config.sweep.deadlineMillis) { w with guard := g } =
        .ok batches u ∧
      changesIn batches = n ∧
      v = released ⟨tenant, w.guard.issued⟩
        { u with announced := u.announced ++ changesTold tenant n } := by
  cases hholder : w.guard.holder? tenant with
  | some number =>
      have hheld : (w.guard.holder? tenant).isSome = true := by rw [hholder]; rfl
      rw [recalculate_eq, Action.bind_of_error (acquire_apply_of_held hheld scope)] at h
      contradiction
  | none =>
      obtain ⟨g, hg, hrun⟩ := recalculate_of_free e hholder
      refine ⟨rfl, g, ?_⟩
      rw [(hrun scope).2] at h
      cases hsweep : e.sweep tenant (scope.child w.clock e.config.sweep.deadlineMillis)
          { w with guard := g } with
      | error f u =>
          rw [sweeping_of_error e (v := { w with guard := g }) hsweep] at h
          contradiction
      | ok batches u =>
          rw [sweeping_of_ok e (v := { w with guard := g }) hsweep] at h
          cases h
          exact ⟨batches, u, hg, (hrun scope).1, rfl, rfl, rfl⟩

/-- A sweep that fails has been refused its permit, or it has returned it after it had to stop. -/
theorem recalculate_eq_error {scope : Scope} {w v : World} {f : Fault}
    (h : e.recalculate tenant scope w = .error f v) :
    f = .conflict ("salience recalculation already running for tenant " ++ tenant.name) ∧
        v = w ∨
      w.guard.holder? tenant = none ∧ ∃ (g : Guard) (u : World),
        (∀ other, g.holder? other =
          if other = tenant then some w.guard.issued else w.guard.holder? other) ∧
        acquire tenant scope w = .ok ⟨tenant, w.guard.issued⟩ { w with guard := g } ∧
        e.sweep tenant (scope.child w.clock e.config.sweep.deadlineMillis) { w with guard := g } =
          .error f u ∧
        v = released ⟨tenant, w.guard.issued⟩ u := by
  cases hholder : w.guard.holder? tenant with
  | some number =>
      have hheld : (w.guard.holder? tenant).isSome = true := by rw [hholder]; rfl
      rw [recalculate_eq, Action.bind_of_error (acquire_apply_of_held hheld scope)] at h
      cases h
      exact .inl ⟨rfl, rfl⟩
  | none =>
      obtain ⟨g, hg, hrun⟩ := recalculate_of_free e hholder
      refine .inr ⟨rfl, g, ?_⟩
      rw [(hrun scope).2] at h
      cases hsweep : e.sweep tenant (scope.child w.clock e.config.sweep.deadlineMillis)
          { w with guard := g } with
      | ok batches u =>
          rw [sweeping_of_ok e (v := { w with guard := g }) hsweep] at h
          contradiction
      | error f' u =>
          rw [sweeping_of_error e (v := { w with guard := g }) hsweep] at h
          cases h
          exact ⟨u, hg, (hrun scope).1, rfl, rfl⟩

theorem frame_released (tenant : Tenant) (number : Nat) (w : World) :
    w.Frame tenant (released ⟨tenant, number⟩ w) := by
  refine ⟨rfl, fun _ _ _ => rfl, fun _ => rfl, ?_⟩
  intro other ho
  show (w.guard.release ⟨tenant, number⟩ w.clock).holder? other = _
  rw [Guard.holder?_release, if_neg fun h => ho h.1]

/-- While a sweep runs, the two runs hold permits of their own numbers. -/
theorem agree_recalculate_of_free {b : Background × Background} {v w : World}
    (h : v.Alike tenant b w) (hfree : b.1.holder = none) (scope : Scope) :
    (World.confinement tenant).Agree b Eq (e.recalculate tenant scope v)
      (e.recalculate tenant scope w) := by
  have hfree' : b.2.holder = none := by
    have hheld := h.held
    rw [hfree] at hheld
    exact Option.isNone_iff_eq_none.1 (Option.isSome_eq_false_iff.1 hheld.symm)
  obtain ⟨gv, hv, hgv⟩ := acquire_apply_of_free (h.left.trans hfree) scope
  obtain ⟨gw, hw, hgw⟩ := acquire_apply_of_free (h.right.trans hfree') scope
  -- the backgrounds of the sweep differ from those around it by the permits taken
  have hswept : World.Alike tenant
      (⟨b.1.announced, some v.guard.issued⟩, ⟨b.2.announced, some w.guard.issued⟩)
      { v with guard := gv } { w with guard := gw } :=
    { h with
      left := (hgv tenant).trans (if_pos rfl)
      right := (hgw tenant).trans (if_pos rfl)
      held := rfl }
  have hrun := (Action.Confined.outcome (confined_sweeping e tenant)).agree _ scope hswept
  rw [recalculate_eq, Action.bind_of_ok hv, Action.bind_of_ok hw]
  obtain ⟨rv, v', hv'⟩ := outcome_apply _ scope { v with guard := gv }
  obtain ⟨rw', w', hw'⟩ := outcome_apply _ scope { w with guard := gw }
  rw [Action.bind_of_ok hv', Action.bind_of_ok hw']
  rw [hv', hw'] at hrun
  obtain ⟨rfl, hlater⟩ := hrun
  have hreleased : World.Alike tenant b (released ⟨tenant, v.guard.issued⟩ v')
      (released ⟨tenant, w.guard.issued⟩ w') :=
    { hlater with
      left := (holder?_released hlater.left).trans hfree.symm
      right := (holder?_released hlater.right).trans hfree'.symm
      held := h.held }
  exact (confined_ofOutcome rv).agree b scope hreleased

theorem confined_recalculate : Confined tenant (e.recalculate tenant) where
  agree b scope {v w} h := by
    cases hheld : b.1.holder with
    | none => exact agree_recalculate_of_free e h hheld scope
    | some n =>
        have hv : (v.guard.holder? tenant).isSome = true := by
          rw [h.left, hheld]
          rfl
        have hw : (w.guard.holder? tenant).isSome = true := by
          rw [h.right, ← h.held, hheld]
          rfl
        rw [recalculate_eq, Action.bind_of_error (acquire_apply_of_held hv scope),
          Action.bind_of_error (acquire_apply_of_held hw scope)]
        exact ⟨rfl, h⟩
  keeps scope w := by
    rw [recalculate_eq]
    -- the permit is refused at once, or taken and returned around the sweep
    cases hholder : w.guard.holder? tenant with
    | some n =>
        rw [Action.bind_of_error (acquire_apply_of_held (by rw [hholder]; rfl) scope)]
        exact World.Frame.refl tenant w
    | none =>
        obtain ⟨g, hacquire, hg⟩ := acquire_apply_of_free hholder scope
        rw [Action.bind_of_ok hacquire]
        have hacquired : w.Frame tenant { w with guard := g } :=
          ⟨rfl, fun _ _ _ => rfl, fun _ => rfl, fun other ho => (hg other).trans (if_neg ho)⟩
        apply hacquired.trans
        have hrun := (Action.Confined.outcome (confined_sweeping e tenant)).keeps scope
          { w with guard := g }
        apply (World.confinement tenant).keeps_bind hrun
        intro result v _
        apply (frame_released tenant w.guard.issued v).trans
        exact (confined_ofOutcome result).keeps scope (released ⟨tenant, w.guard.issued⟩ v)

end Engine
end SalientGraph
