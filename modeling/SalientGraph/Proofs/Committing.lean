import SalientGraph.Proofs.Announcements
import SalientGraph.Proofs.Atomicity

/-!
# What calls commit

A call that changes salience, other than a sweep, commits all its updates at one time or
nothing at all. A sweep commits its batches one by one, and may end after any of them.
Whatever each batch keeps true of the graphs, from the cursor that it starts at to the
one that it ends at, is therefore true after a sweep, however that ends.
-/

namespace SalientGraph

theorem Action.announce_apply (event : ChangeEvent) (scope : Scope) (w : World) :
    announce event scope w = .ok () { w with announced := w.announced ++ [event] } := rfl

namespace Engine

open SalientGraph.Action (announce_apply finalState_of_published transact_makes)

variable {α : Type} (e : Engine) {tenant : Tenant} {v : World}

/-! ## One transaction -/

section
variable (halone : v.conditions.others = []) (hkeyed : v.store.WellKeyed)
include halone hkeyed

/-- However a call ends that changes salience and is no sweep, the world is still or all updates of
the call are committed, for the graph that the call has found. -/
theorem rating_cases (tenant : Tenant) {call : Call} (hcall : call.isRating = true)
    (hsweep : call ≠ .recalculate) (scope : Scope) :
    let u := finalState (e.perform tenant call scope v)
    v.Still u ∨ ∃ time events, v.Becomes (Write.applyEachAt
      (call.updates (v.wall time) (v.store.tablesOf tenant)) tenant v.store.tablesOf) events u := by
  have hedits := TxAction.editable_stillness tenant
  dsimp only
  -- each of them is one transaction, and what follows on a commit does not touch the store
  cases call with
  | boostNode id =>
      rw [perform, finalState_map, boostNode_eq_boostRow]
      rcases finalState_of_published (hedits.boostRow id) (makes_boostRow id) halone hkeyed
        (fun _ => announce_apply (.nodeBoosted tenant id) scope) with
        hstill | ⟨_, _, ⟨_, time, _, _, rfl⟩, hcommitted⟩
      · exact .inl hstill
      · exact .inr ⟨time, _, hcommitted⟩
  | boostEdge key =>
      rw [perform, finalState_map, boostEdge_eq_boostEdgeRow]
      rcases finalState_of_published (hedits.boostEdgeRow key) (makes_boostEdgeRow key) halone
        hkeyed (fun _ => announce_apply (.edgeBoosted tenant key) scope) with
        hstill | ⟨_, _, ⟨_, time, _, _, rfl⟩, hcommitted⟩
      · exact .inl hstill
      · exact .inr ⟨time, _, hcommitted⟩
  | supersedeNode old new =>
      rw [perform, finalState_map, supersedeNode]
      split
      · exact .inl (.refl v)
      · rename_i hne
        rcases finalState_of_published (hedits.succeed old new) (makes_succeed hne) halone hkeyed
          (fun _ => announce_apply (.nodeSuperseded tenant old new) scope) with
          hstill | ⟨_, _, ⟨_, _, time, _, _, _, rfl⟩, hcommitted⟩
        · exact .inl hstill
        · exact .inr ⟨time, _, hcommitted⟩
  | recordAccess ids =>
      rw [perform, finalState_map, recordAccess_eq_tellAccesses]
      split
      · exact .inl (.refl v)
      · rcases finalState_of_published (hedits.count (distinct ids)) (makes_count ids) halone
          hkeyed (fun rows => tellAccesses_apply tenant (rows.map Node.id) scope) with
          hstill | ⟨_, _, ⟨time, _, rfl⟩, hcommitted⟩
        · exact .inl hstill
        · exact .inr ⟨time, _, hcommitted⟩
  | recalculate => exact absurd rfl hsweep
  | createNode | createEdge | getNode | getEdge | removeNode | removeEdge | neighbors | traverse
  | context | shortestPath | fullTextSearch | semanticSearch | hybridSearch => contradiction

end

/-! ## Sweeps -/

/-- Nobody else uses the store, it is dated by a certain calendar, and something is true of the
committed graphs. -/
structure Upholds (wall : Nat → Timestamp) (property : (Tenant → Tables) → Prop) (w : World) :
    Prop where
  alone : w.conditions.others = []
  wall : w.wall = wall
  wellKeyed : w.store.WellKeyed
  graphs : property w.store.tablesOf

/-- What is true of the graphs where a batch starts is true of them where it ends, whatever time it
is dated. -/
def KeptByBatches (tenant : Tenant) (wall : Nat → Timestamp)
    (property : Option String → (Tenant → Tables) → Prop) : Prop :=
  ∀ (graphs : Tenant → Tables) (time : Nat) (cursor : Option String),
    (∀ other, (graphs other).WellKeyed) → property cursor graphs →
      let rows := (graphs tenant).view.nodesAfter cursor e.batchSize
      property ((rows.map Node.id).getLast?.or cursor)
        (Write.applyEachAt ((Rating.stale (wall time) rows).map Rating.write) tenant graphs)

/-- Something is true of the graphs for the cursor that a sweep has got to. -/
def Somewhere (property : Option String → (Tenant → Tables) → Prop) (graphs : Tenant → Tables) :
    Prop :=
  ∃ cursor, property cursor graphs

variable {wall : Nat → Timestamp}

namespace Upholds

variable {property : (Tenant → Tables) → Prop} {w : World}

theorem of_still (h : Upholds wall property v) (hw : v.Still w) : Upholds wall property w := by
  have htables : w.store.tablesOf = v.store.tablesOf := funext (hw.tablesOf_eq h.alone)
  refine ⟨by rw [hw.conditions]; exact h.alone, hw.wall.trans h.wall, ?_, ?_⟩
  · intro tenant
    rw [htables]
    exact h.wellKeyed tenant
  · rw [htables]
    exact h.graphs

theorem of_becomes {after : (Tenant → Tables) → Prop} {graphs : Tenant → Tables}
    {events : List ChangeEvent} (h : Upholds wall property v) (hw : v.Becomes graphs events w)
    (hgraphs : after graphs) : Upholds wall after w := by
  refine ⟨by rw [hw.conditions]; exact h.alone, hw.wall.trans h.wall, hw.wellKeyed, ?_⟩
  rw [show w.store.tablesOf = graphs from funext hw.tables]
  exact hgraphs

/-- Only the store matters, who else uses it, and the calendar. -/
theorem of_store (h : Upholds wall property v) (hstore : w.store = v.store)
    (hconditions : w.conditions = v.conditions) (hwall : w.wall = v.wall) :
    Upholds wall property w :=
  ⟨hconditions ▸ h.alone, hwall.trans h.wall, hstore ▸ h.wellKeyed, hstore ▸ h.graphs⟩

theorem somewhere {property : Option String → (Tenant → Tables) → Prop} {cursor : Option String}
    (h : Upholds wall (property cursor) v) : Upholds wall (Somewhere property) v :=
  ⟨h.alone, h.wall, h.wellKeyed, cursor, h.graphs⟩

end Upholds

/-! ### Batch by batch -/

section
variable {property : Option String → (Tenant → Tables) → Prop}
  (hkept : e.KeptByBatches tenant wall property)
include hkept

/-- A batch that fails leaves the world still. One that is answered ends behind its last node. -/
theorem upholds_batch (cursor : Option String) :
    Meets (Action.transact .readWrite (e.batch tenant cursor)) (Upholds wall (property cursor))
      (fun done => Upholds wall (property (done.ids.getLast?.or cursor)))
      (fun _ => Upholds wall (property cursor)) := by
  intro scope v hv
  have hbody := (TxAction.editable_stillness tenant).batch e cursor
  obtain rfl := hv.wall
  rcases transact_makes hbody (makes_batch e cursor) hv.alone hv.wellKeyed scope with
    ⟨f, w, hrun, hw⟩ | ⟨done, _, w, hrun, ⟨time, rfl, rfl⟩, hw⟩
  · rw [hrun]
    exact hv.of_still hw
  · rw [hrun]
    exact hv.of_becomes hw (hkept _ time cursor hv.wellKeyed hv.graphs)

/-- The property is upheld between two batches, and so it is where a sweep ends, for the cursor that
it has got to. -/
theorem upholds_sweepFrom (more : Nat) :
    ∀ cursor, Meets (e.sweepFrom tenant more cursor) (Upholds wall (property cursor))
      (fun _ => Upholds wall (Somewhere property))
      (fun _ => Upholds wall (Somewhere property)) := by
  induction more with
  | zero => exact fun cursor => Meets.pure fun _ hv => hv.somewhere
  | succ more ih =>
      intro cursor
      apply ((upholds_batch e hkept cursor).weaken (fun _ hv => hv) (fun _ _ hw => hw)
        fun _ _ hw => hw.somewhere).bind
      intro done
      split
      · exact Meets.pure fun _ hw => hw.somewhere
      · -- the batch was full, so that there is a last node to go on behind
        rename_i hfull
        have hnext : done.ids.getLast?.or cursor = done.ids.getLast? := by
          cases hlast : done.ids.getLast? with
          | some last => rfl
          | none =>
              rw [List.getLast?_eq_none_iff.1 hlast] at hfull
              exact absurd e.one_le_batchSize hfull
        rw [hnext]
        exact (ih _).bind fun rest => Meets.pure fun _ hw => hw

/-- To take a permit, to tell of a sweep and to return the permit leave the graphs as they are. -/
theorem upholds_recalculate :
    Meets (e.recalculate tenant) (Upholds wall (property none))
      (fun _ => Upholds wall (Somewhere property))
      (fun _ => Upholds wall (Somewhere property)) := by
  have hacquire : Meets (acquire tenant) (Upholds wall (property none))
      (fun _ => Upholds wall (property none)) (fun _ => Upholds wall (property none)) := by
    intro scope v hv
    unfold acquire
    cases v.guard.acquire tenant v.clock with
    | ok taken => exact hv.of_store rfl rfl rfl
    | error f => exact hv
  have hsweep : Meets (e.sweep tenant) (Upholds wall (property none))
      (fun _ => Upholds wall (Somewhere property)) (fun _ => Upholds wall (Somewhere property)) :=
    fun scope v => upholds_sweepFrom e hkept _ none scope v
  have hsweeping : Meets (e.sweeping tenant) (Upholds wall (property none))
      (fun _ => Upholds wall (Somewhere property))
      (fun _ => Upholds wall (Somewhere property)) := by
    have hwithin : Meets (Action.within
        (fun now scope => scope.child now e.config.sweep.deadlineMillis) (e.sweep tenant)) _ _ _ :=
      fun scope v => hsweep _ v
    apply hwithin.bind
    intro batches
    split
    · exact fun scope v hv => hv.of_store rfl rfl rfl
    · exact Meets.pure fun _ hv => hv
  have hrelease (permit : Permit) : Meets (release permit) (Upholds wall (Somewhere property))
      (fun _ => Upholds wall (Somewhere property)) (fun _ => Upholds wall (Somewhere property)) :=
    fun scope v hv => hv.of_store rfl rfl rfl
  rw [recalculate_eq]
  apply (hacquire.weaken (fun _ hv => hv) (fun _ _ hv => hv) fun _ _ hv => hv.somewhere).bind
  intro permit
  rw [Action.outcome_eq_attempt]
  -- however the sweep has ended, the permit goes back before its outcome is given
  apply hsweeping.attempt.bind
  intro result
  apply (hrelease permit).bind
  intro _
  cases result with
  | ok k => exact Meets.pure fun _ hv => hv
  | error f => exact Meets.throw fun _ hv => hv

end

end Engine
end SalientGraph
