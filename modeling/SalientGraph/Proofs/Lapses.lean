import SalientGraph.Proofs.Calls
import SalientGraph.Proofs.ConfinedEngine
import SalientGraph.Proofs.Custody

/-!
# Calls in a scope that is over

A caller may have given up, or have run out of time, before a call is even looked at.
Every transaction asks for its scope before it asks for anything else, and so does every
part of a scope, which is over with the whole. So such a call makes no request and has
no effect. It gets to know that its scope is over, unless it is one of the few that need
no transaction to be answered. A sweep takes its permit before it begins, and has to
return it.
-/

namespace SalientGraph

namespace Scope

/-- Whether a scope is over: it is cancelled, or its deadline has come. -/
def IsOver (s : Scope) (now : Nat) : Prop :=
  s.cancelledAt.any (· ≤ now) = true ∨ s.deadline.any (· ≤ now) = true

/-- What those get to know who go on in a scope that is over. A cancellation counts first. -/
def interruption (s : Scope) (now : Nat) : Fault :=
  if s.cancelledAt.any (· ≤ now) then .cancelled else .deadlineExceeded

variable {s : Scope} {now : Nat}

theorem check_of_isOver (h : s.IsOver now) : s.check now = .error (s.interruption now) := by
  unfold check interruption
  split
  · rfl
  · rename_i hrunning
    rw [if_pos (h.resolve_left hrunning)]

/-- A part of a scope is over with the whole. -/
theorem IsOver.child (h : s.IsOver now) (timeout : Nat) : (s.child now timeout).IsOver now := by
  rcases h with hcancelled | hlate
  · exact .inl hcancelled
  · cases hdeadline : s.deadline with
    | none =>
        rw [hdeadline] at hlate
        contradiction
    | some deadline =>
        rw [hdeadline, Option.any_some, decide_eq_true_eq] at hlate
        refine .inr ?_
        rw [Scope.child, hdeadline, earlier, Option.any_some, decide_eq_true_eq]
        exact Nat.le_trans (Nat.min_le_left _ _) hlate

@[simp] theorem interruption_child (timeout : Nat) :
    (s.child now timeout).interruption now = s.interruption now := rfl

end Scope

/-- What a call is answered without its scope being asked for, if it is. -/
def Call.unconsulted? (guard : Guard) (tenant : Tenant) : Call → Option (Except Fault Call.Answer)
  | .supersedeNode old new =>
    if old = new then
      some (.error (.invalidArgument ("node " ++ old ++ " cannot supersede itself")))
    else none
  | .recordAccess [] => some (.ok (.nodes []))
  | .fullTextSearch q _ => if Text.isBlank q.text then some (.ok (.nodes [])) else none
  | .recalculate =>
    if guard.isHeld tenant then
      some (.error
        (.conflict ("salience recalculation already running for tenant " ++ tenant.name)))
    else none
  | _ => none

open SalientGraph.Action (bind_of_ok bind_of_error)

variable {scope : Scope} {w : World}

/-- In a scope that is over, a transaction is not even begun. -/
theorem Action.transact_of_isOver {α : Type} (h : scope.IsOver w.clock) (access : Access)
    (body : TxAction α) :
    Action.transact access body scope w = .error (scope.interruption w.clock) w := by
  apply bind_of_error
  unfold Action.check
  rw [Scope.check_of_isOver h]

namespace Engine

variable (e : Engine) (tenant : Tenant)

/-- A sweep stops before its first batch. -/
theorem sweeping_of_isOver (h : scope.IsOver w.clock) :
    e.sweeping tenant scope w = .error (scope.interruption w.clock) w := by
  apply sweeping_of_error
  rw [← Scope.interruption_child (s := scope) e.config.sweep.deadlineMillis]
  exact bind_of_error (Action.transact_of_isOver (h.child _) _ _)

/-- All that is left of a sweep which could not begin is a guard with the same permits in use. -/
theorem recalculate_of_isOver (h : scope.IsOver w.clock) (hfree : w.guard.isHeld tenant = false) :
    ∃ guard, e.recalculate tenant scope w =
        .error (scope.interruption w.clock) { w with guard := guard } ∧
      ∀ other, guard.isHeld other = w.guard.isHeld other := by
  have hholder : w.guard.holder? tenant = none := Guard.isHeld_eq_false_iff.1 hfree
  obtain ⟨g, hissued, hrecalculate⟩ := recalculate_of_free e hholder
  refine ⟨g.release ⟨tenant, w.guard.issued⟩ w.clock, ?_, ?_⟩
  · rw [(hrecalculate scope).2, sweeping_of_isOver e tenant (w := { w with guard := g }) h]
    rfl
  · intro other
    rw [Guard.isHeld_eq_isSome_holder?, Guard.isHeld_eq_isSome_holder?, Guard.holder?_release]
    by_cases hother : other = tenant
    · -- the permit that was taken is the one in use, and it goes back
      subst hother
      have htaken : g.holder? other = some w.guard.issued := by
        rw [hissued, if_pos rfl]
      rw [if_pos ⟨rfl, htaken⟩, hholder]
    · rw [if_neg fun heq => hother heq.1, hissued, if_neg hother]

/-- The answers and faults of calls in a scope that is over, with what they leave of the world. -/
theorem perform_of_isOver (h : scope.IsOver w.clock) (call : Call) :
    ∃ guard, e.perform tenant call scope w =
        Action.ofOutcome ((call.unconsulted? w.guard tenant).getD
          (.error (scope.interruption w.clock))) scope { w with guard := guard } ∧
      ∀ other, guard.isHeld other = w.guard.isHeld other := by
  -- most calls have to begin a transaction first
  have hstopped {access : Access} {β γ : Type} {body : TxAction β} {next : β → Action γ} :
      (Action.transact access body >>= next) scope w = .error (scope.interruption w.clock) w :=
    bind_of_error (Action.transact_of_isOver h _ _)
  cases call with
  | createNode node => exact ⟨w.guard, hstopped, fun _ => rfl⟩
  | createEdge edge => exact ⟨w.guard, hstopped, fun _ => rfl⟩
  | getNode id => exact ⟨w.guard, hstopped, fun _ => rfl⟩
  | getEdge key => exact ⟨w.guard, hstopped, fun _ => rfl⟩
  | removeNode id => exact ⟨w.guard, hstopped, fun _ => rfl⟩
  | removeEdge key => exact ⟨w.guard, hstopped, fun _ => rfl⟩
  | neighbors id limit => exact ⟨w.guard, hstopped, fun _ => rfl⟩
  | traverse id hops => exact ⟨w.guard, hstopped, fun _ => rfl⟩
  | context id hops => exact ⟨w.guard, bind_of_error hstopped, fun _ => rfl⟩
  | shortestPath start target => exact ⟨w.guard, hstopped, fun _ => rfl⟩
  | semanticSearch embedding limit => exact ⟨w.guard, hstopped, fun _ => rfl⟩
  | hybridSearch text embedding limit => exact ⟨w.guard, hstopped, fun _ => rfl⟩
  | boostNode id => exact ⟨w.guard, bind_of_error hstopped, fun _ => rfl⟩
  | boostEdge key => exact ⟨w.guard, bind_of_error hstopped, fun _ => rfl⟩
  | fullTextSearch q limit =>
      refine ⟨w.guard, ?_, fun _ => rfl⟩
      by_cases hblank : Text.isBlank q.text = true
      · simp only [perform, fullTextSearch, Call.unconsulted?, if_pos hblank, Option.getD_some]
        rfl
      · simp only [perform, fullTextSearch, Call.unconsulted?, if_neg hblank, Option.getD_none]
        exact bind_of_error hstopped
  | supersedeNode old new =>
      refine ⟨w.guard, ?_, fun _ => rfl⟩
      by_cases hsame : old = new
      · simp only [perform, supersedeNode, Call.unconsulted?, if_pos hsame, Option.getD_some]
        rfl
      · simp only [perform, supersedeNode, Call.unconsulted?, if_neg hsame, Option.getD_none]
        exact bind_of_error hstopped
  | recordAccess ids =>
      refine ⟨w.guard, ?_, fun _ => rfl⟩
      cases ids with
      | nil => rfl
      | cons id ids =>
          -- a list that names something still does so with repetitions left out
          have hsome : (distinct (id :: ids)).isEmpty = false := by
            rw [List.isEmpty_eq_false_iff_exists_mem]
            exact ⟨id, mem_distinct.2 List.mem_cons_self⟩
          simp only [perform, recordAccess, Call.unconsulted?, hsome, Option.getD_none]
          exact bind_of_error hstopped
  | recalculate =>
      cases hheld : w.guard.isHeld tenant with
      | true =>
          refine ⟨w.guard, ?_, fun _ => rfl⟩
          rw [Call.unconsulted?, if_pos hheld]
          rw [Guard.isHeld_eq_isSome_holder?] at hheld
          exact bind_of_error (bind_of_error (acquire_apply_of_held hheld scope))
      | false =>
          obtain ⟨guard, hrun, hguard⟩ := recalculate_of_isOver e tenant h hheld
          refine ⟨guard, ?_, hguard⟩
          rw [Call.unconsulted?, if_neg (by simp [hheld])]
          exact bind_of_error hrun

/-- A call in a scope that is over, by its own cancellation or its deadline, changes nothing that is
stored and tells nobody of anything. Its outcome is the interruption, the cancellation counting
first, unless the call is one of those that are answered without their scope. And the permits in
use are the same as before, so that one which was taken for a sweep is free again. -/
theorem scope_that_is_over_stops_every_call (call : Call) (h : scope.IsOver w.clock) :
    let run := e.perform tenant call scope w
    outcomeOf run =
        (call.unconsulted? w.guard tenant).getD (.error (scope.interruption w.clock)) ∧
      (finalState run).store = w.store ∧ (finalState run).announced = w.announced ∧
      ∀ other, (finalState run).guard.isHeld other = w.guard.isHeld other := by
  intro run
  obtain ⟨guard, hperform, hguard⟩ := perform_of_isOver e tenant h call
  have hrun : run = _ := hperform
  rw [hrun]
  cases (call.unconsulted? w.guard tenant).getD (.error (scope.interruption w.clock)) with
  | ok answer => exact ⟨rfl, rfl, rfl, hguard⟩
  | error f => exact ⟨rfl, rfl, rfl, hguard⟩

/-- The deadline has just come, and the cancellation is still to come. A sweep over a graph with a
node takes its permit, finds that it is late, and returns the permit. -/
theorem scope_that_is_over_stops_every_call_at_its_deadline :
    let e : Engine :=
      { nonce := fun _ => [], shuffle := fun _ ids => ids, shuffle_perm := fun _ _ => .refl _ }
    let stored : SealedNode := ⟨"a", "person", "a", ⟨[]⟩, none, default⟩
    let tx := (Store.begin {} .readWrite).1.stageNode ⟨"acme"⟩ "a" (.put stored)
    let w : World := { World.start {} default with store := Store.commit {} tx, clock := 5 }
    let scope : Scope := ⟨some 5, some 6⟩
    let run := e.perform ⟨"acme"⟩ .recalculate scope w
    scope.IsOver w.clock ∧ outcomeOf run = .error .deadlineExceeded ∧
      (finalState run).store = w.store ∧ (finalState run).announced = [] ∧
      (finalState run).guard.size = 1 ∧ (finalState run).guard.isHeld ⟨"acme"⟩ = false := by
  intro e stored tx w scope run
  have hover : scope.IsOver w.clock := .inr (by decide)
  have hfree : w.guard.isHeld ⟨"acme"⟩ = false := by decide +kernel
  obtain ⟨houtcome, hstore, hannounced, hguard⟩ :=
    scope_that_is_over_stops_every_call e ⟨"acme"⟩ .recalculate hover
  refine ⟨hover, houtcome.trans ?_, hstore, hannounced, ?_, (hguard _).trans hfree⟩
  · rw [Call.unconsulted?, hfree]
    rfl
  · decide +kernel

end Engine
end SalientGraph
