import SalientGraph.Proofs.Calls
import SalientGraph.Proofs.ConfinedEngine

/-!
# Tenants do not notice each other

In a series of calls for many tenants, the calls of one tenant could as well be left
out: all other tenants get the same answers and the same events, and find the same
graphs in the end. The guard is shared and so are the counters of the store, but neither
leaves a trace in what a tenant gets.
-/

namespace SalientGraph
namespace Engine

variable (e : Engine) {tenant : Tenant}

theorem confined_perform (call : Call) : Action.Confined tenant (e.perform tenant call) := by
  cases call with
  | createNode node => exact (confined_createNode e node).bind fun _ => .pure _
  | createEdge edge => exact (confined_createEdge e edge).bind fun _ => .pure _
  | removeNode id => exact (confined_removeNode id).bind fun _ => .pure _
  | removeEdge key => exact (confined_removeEdge key).bind fun _ => .pure _
  | boostNode id => exact (confined_boostNode e id).bind fun _ => .pure _
  | boostEdge key => exact (confined_boostEdge e key).bind fun _ => .pure _
  | supersedeNode old new => exact (confined_supersedeNode e old new).bind fun _ => .pure _
  | recordAccess ids => exact (confined_recordAccess e ids).bind fun _ => .pure _
  | recalculate => exact (confined_recalculate e).bind fun _ => .pure _
  | getNode | getEdge | neighbors | traverse | context | shortestPath | fullTextSearch
  | semanticSearch | hybridSearch =>
      exact (TxAction.readable_confinement tenant .readOnly).perform e Action.confined_transact rfl

end Engine

/-! ## From one call to the next -/

/-- Between calls, worlds that a tenant cannot tell apart. -/
structure World.Same (tenant : Tenant) (v w : World) : Prop where
  tables : v.store.tablesOf tenant = w.store.tablesOf tenant
  vectorOnline : v.store.vectorOnline = w.store.vectorOnline
  held : (v.guard.holder? tenant).isSome = (w.guard.holder? tenant).isSome

theorem World.Same.refl (tenant : Tenant) (w : World) : w.Same tenant w :=
  ⟨rfl, rfl, rfl⟩

theorem World.Same.symm {tenant : Tenant} {v w : World} (h : v.Same tenant w) : w.Same tenant v :=
  ⟨h.tables.symm, h.vectorOnline.symm, h.held.symm⟩

theorem World.Same.trans {tenant : Tenant} {u v w : World} (h : u.Same tenant v)
    (h' : v.Same tenant w) : u.Same tenant w :=
  ⟨h.tables.trans h'.tables, h.vectorOnline.trans h'.vectorOnline, h.held.trans h'.held⟩

namespace World

variable {tenant : Tenant} {v w : World}

/-- When a call comes, the same worlds are alike in front of what happened before. -/
theorem Same.arrive (h : v.Same tenant w) (o : Occasion) :
    (v.arrive o).Alike tenant
      (⟨v.announced, v.guard.holder? tenant⟩, ⟨w.announced, w.guard.holder? tenant⟩)
      (w.arrive o) where
  tables := h.tables
  vectorOnline := h.vectorOnline
  conditions := rfl
  alone := o.alone
  served := rfl
  clock := rfl
  wall := rfl
  draws := rfl
  announced := ⟨[], (List.append_nil _).symm, (List.append_nil _).symm⟩
  left := Guard.holder?_elapse _ _ _ _
  right := Guard.holder?_elapse _ _ _ _
  held := h.held

/-- After a call, worlds alike are the same, and the events of the call are. -/
theorem Alike.same {b : Background × Background} (h : v.Alike tenant b w) : v.Same tenant w :=
  ⟨h.tables, h.vectorOnline, by rw [h.left, h.right, h.held]⟩

theorem Alike.drop_announced {b : Background × Background} (h : v.Alike tenant b w) :
    v.announced.drop b.1.announced.length = w.announced.drop b.2.announced.length := by
  obtain ⟨new, hv, hw⟩ := h.announced
  rw [hv, hw, List.drop_left, List.drop_left]

end World

namespace Engine

variable (e : Engine) {tenant : Tenant} {v w : World}

/-- A tenant's own call has the same reply in worlds that it cannot tell apart, and leaves such. -/
theorem serve_same (o : Occasion) (h : v.Same o.tenant w) :
    (e.serve o v).1 = (e.serve o w).1 ∧ (e.serve o v).2.Same o.tenant (e.serve o w).2 := by
  unfold serve
  refine Discipline.Agree.elim ((confined_perform e o.call).agree _ o.scope (h.arrive o)) ?_ ?_
  · rintro a _ v' w' rfl hlater
    have hevents := hlater.drop_announced
    dsimp only at hevents ⊢
    rw [hevents]
    exact ⟨rfl, hlater.same⟩
  · intro f v' w' hlater
    have hevents := hlater.drop_announced
    dsimp only at hevents ⊢
    rw [hevents]
    exact ⟨rfl, hlater.same⟩

theorem serve_tenant (o : Occasion) (w : World) : (e.serve o w).1.tenant = o.tenant := by
  unfold serve
  split <;> rfl

/-- A call of another tenant leaves a world that cannot be told from the one before. -/
theorem serve_other (o : Occasion) (ho : tenant ≠ o.tenant) (w : World) :
    w.Same tenant (e.serve o w).2 := by
  have hframe : (w.arrive o).Frame o.tenant
      (finalState (e.perform o.tenant o.call o.scope (w.arrive o))) :=
    (confined_perform e o.call).keeps o.scope (w.arrive o)
  have hsame : w.Same tenant (finalState (e.perform o.tenant o.call o.scope (w.arrive o))) := by
    refine ⟨(hframe.tables o.alone tenant ho).symm, (hframe.vectorOnline o.alone).symm, ?_⟩
    rw [hframe.holder tenant ho]
    exact congrArg Option.isSome (Guard.holder?_elapse _ _ _ _).symm
  unfold serve
  cases hrun : e.perform o.tenant o.call o.scope (w.arrive o) with
  | ok a v =>
      rw [hrun] at hsame
      exact hsame
  | error f v =>
      rw [hrun] at hsame
      exact hsame

/-- What a tenant gets does not depend on whether another tenant's calls are served as well. -/
theorem serveAll_without (a b : Tenant) (hab : a ≠ b) (os : List Occasion) :
    ∀ {v w : World}, v.Same a w →
      ((e.serveAll os v).1.filter fun r => r.tenant = a) =
          ((e.serveAll (os.filter fun o => o.tenant ≠ b) w).1.filter fun r => r.tenant = a) ∧
        (e.serveAll os v).2.Same a (e.serveAll (os.filter fun o => o.tenant ≠ b) w).2 := by
  induction os with
  | nil => exact fun h => ⟨rfl, h⟩
  | cons o os ih =>
      intro v w h
      by_cases hb : o.tenant = b
      · -- left out on one side, and another tenant's on the other
        have ha : a ≠ o.tenant := by rwa [hb]
        obtain ⟨hreplies, hlater⟩ := ih ((serve_other e o ha v).symm.trans h)
        rw [List.filter_cons_of_neg (by simpa using hb), serveAll]
        refine ⟨?_, hlater⟩
        rw [List.filter_cons_of_neg (by simpa [serve_tenant] using ha.symm)]
        exact hreplies
      · rw [List.filter_cons_of_pos (by simpa using hb), serveAll, serveAll]
        by_cases ha : o.tenant = a
        · -- the tenant's own call, served on both sides
          subst ha
          obtain ⟨hreply, hnext⟩ := serve_same e o h
          obtain ⟨hreplies, hlater⟩ := ih hnext
          refine ⟨?_, hlater⟩
          dsimp only
          rw [List.filter_cons, List.filter_cons, hreply, hreplies]
        · -- a third tenant's, served on both sides and not noticed on either
          have hnext : (e.serve o v).2.Same a (e.serve o w).2 :=
            (serve_other e o (Ne.symm ha) v).symm.trans (h.trans (serve_other e o (Ne.symm ha) w))
          obtain ⟨hreplies, hlater⟩ := ih hnext
          refine ⟨?_, hlater⟩
          rw [List.filter_cons_of_neg (by simpa [serve_tenant] using ha),
            List.filter_cons_of_neg (by simpa [serve_tenant] using ha)]
          exact hreplies

/-- Whether a reply tells that an entry was there and has been removed. -/
def removedSomething (r : Reply) : Bool :=
  match r.outcome with
  | .ok (.removed present) => present
  | _ => false

/-- Tenants do not notice each other: with the calls of `b` left out of a series, all calls of `a`
have the same outcomes and the same events, and the graph of `a` is the same in the end. -/
theorem tenants_isolated (w : World) (os : List Occasion) (a b : Tenant) (hab : a ≠ b) :
    ((e.serveAll os w).1.filter fun r => r.tenant = a) =
        ((e.serveAll (os.filter fun o => o.tenant ≠ b) w).1.filter fun r => r.tenant = a) ∧
      (e.serveAll os w).2.store.tablesOf a =
        (e.serveAll (os.filter fun o => o.tenant ≠ b) w).2.store.tablesOf a := by
  obtain ⟨hreplies, hlater⟩ := serveAll_without e a b hab os (World.Same.refl a w)
  exact ⟨hreplies, hlater.tables⟩

/-- A tenant creates a node and removes it. In between another one sweeps its graph and removes a
node of the same name. -/
theorem tenants_isolated_between_two_removals :
    let e : Engine :=
      { nonce := fun _ => [], shuffle := fun _ ids => ids, shuffle_perm := fun _ _ => .refl _ }
    let occasion (tenant : Tenant) (call : Call) : Occasion :=
      ⟨tenant, call, .unbounded, 0, fun _ => default, 0, 0, {}, rfl⟩
    let node : OpenNode := ⟨"a", "person", "Ada", ∅, none, default⟩
    let os := [occasion ⟨"acme"⟩ (.createNode node), occasion ⟨"globex"⟩ .recalculate,
      occasion ⟨"globex"⟩ (.removeNode "a"), occasion ⟨"acme"⟩ (.removeNode "a")]
    (((e.serveAll os (World.start {} default)).1.filter fun r => r.tenant = ⟨"acme"⟩).map
      removedSomething) = [false, true] := by
  intro e occasion node os
  rw [(tenants_isolated e (World.start {} default) os ⟨"acme"⟩ ⟨"globex"⟩ (by decide)).1]
  decide +kernel

end Engine
end SalientGraph
