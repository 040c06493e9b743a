import SalientGraph.Proofs.Reading
import SalientGraph.Proofs.Transacting

/-!
# Reading a graph that stays as it is

While nobody else commits anything, all that a transaction for reading comes to see is
the graph that it has found in the beginning. What it answers can be described by this
graph alone, together with the number of times that it asks for the edges that touch a
set of nodes. The description is put together along with the program.
-/

namespace SalientGraph

variable {α β : Type} {tenant : Tenant} {v : View} {asked : Nat}

/-- Nobody else uses the store, this is what the session sees of the graph of a tenant, and so many
times it was asked for the edges that touch a set of nodes. -/
structure Session.Beholds (tenant : Tenant) (v : View) (asked : Nat) (s : Session) : Prop where
  alone : s.world.conditions.others = []
  view : s.view tenant = v
  asked : s.world.store.expansions = asked

/-- Over a graph that stays as it is, an answer is as described, with the number of times that it was
asked for the edges that touch a set of nodes. -/
def TxAction.Finds (tenant : Tenant) (v : View) (body : TxAction α) (described : α → Nat → Prop) :
    Prop :=
  ∀ asked, Meets body (Session.Beholds tenant v asked)
    (fun a s => ∃ n, described a n ∧ s.Beholds tenant v (asked + n))
    (fun _ s => ∃ n, s.Beholds tenant v (asked + n))

namespace Session.Beholds

/-- Nobody else commits anything with a request. -/
theorem request (r : Request) (tx : Transaction) :
    Meets (Action.request r) (fun w => Beholds tenant v asked ⟨w, tx⟩)
      (fun _ w => Beholds tenant v asked ⟨w, tx⟩) (fun _ w => Beholds tenant v asked ⟨w, tx⟩) := by
  apply Meets.request
  · exact fun w time h => ⟨h.alone, h.view, h.asked⟩
  · intro w h
    rw [Conditions.meanwhile_of_others_eq_nil h.alone]
    exact ⟨h.alone, h.view, h.asked⟩

end Session.Beholds

namespace TxAction

namespace Finds

variable {described : α → Nat → Prop}

theorem pure {a : α} (h : described a 0) : Finds tenant v (Pure.pure a) described :=
  fun _ => .pure fun _ hs => ⟨0, h, hs⟩

theorem throw (f : Fault) : Finds tenant v (MonadExcept.throw f : TxAction α) described :=
  fun _ => .throw fun _ hs => ⟨0, hs⟩

theorem bind {act : TxAction α} {next : α → TxAction β} {after : β → Nat → Prop}
    (h : Finds tenant v act described)
    (hnext : ∀ a n, described a n → Finds tenant v (next a) fun b m => after b (n + m)) :
    Finds tenant v (act >>= next) after := by
  intro asked
  apply (h asked).bind
  rintro a scope s ⟨n, ha, hs⟩
  have hrun := hnext a n ha (asked + n) scope s hs
  cases hact : next a scope s with
  | ok b t =>
      rw [hact] at hrun
      obtain ⟨m, hb, ht⟩ := hrun
      exact ⟨n + m, hb, Nat.add_assoc asked n m ▸ ht⟩
  | error f t =>
      rw [hact] at hrun
      obtain ⟨m, ht⟩ := hrun
      exact ⟨n + m, Nat.add_assoc asked n m ▸ ht⟩

theorem weaken {act : TxAction α} {described' : α → Nat → Prop} (h : Finds tenant v act described)
    (himp : ∀ a n, described a n → described' a n) : Finds tenant v act described' := by
  intro asked
  apply (h asked).weaken
  · exact fun _ hs => hs
  · rintro a s ⟨n, ha, hs⟩
    exact ⟨n, himp a n ha, hs⟩
  · exact fun _ _ hs => hs

end Finds

/-! ## Steps -/

theorem finds_check : Finds tenant v (Action.inTransaction Action.check) fun _ n => n = 0 := by
  intro asked
  apply Meets.inTransaction
  intro tx scope w hw
  unfold Action.check
  cases scope.check w.clock with
  | ok _ => exact ⟨0, rfl, hw⟩
  | error f => exact ⟨0, hw⟩

theorem finds_request (r : Request) :
    Finds tenant v (Action.inTransaction (Action.request r)) fun _ n => n = 0 := by
  intro asked
  apply Meets.inTransaction
  intro tx
  apply (Session.Beholds.request r tx).weaken
  · exact fun _ hw => hw
  · exact fun _ _ hw => ⟨0, rfl, hw⟩
  · exact fun _ _ hw => ⟨0, hw⟩

theorem finds_ofOutcome (outcome : Except Fault α) :
    Finds tenant v (Action.inTransaction (Action.ofOutcome outcome)) fun a n =>
      n = 0 ∧ outcome = .ok a := by
  cases outcome with
  | ok a => exact .pure ⟨rfl, rfl⟩
  | error f => exact .throw f

theorem Finds.step {act : TxAction α} {described : α → Nat → Prop}
    (h : Finds tenant v act described) : Finds tenant v (step act) described := by
  apply finds_check.bind
  rintro _ _ rfl
  apply h.weaken
  intro a n ha
  rw [Nat.zero_add]
  exact ha

theorem finds_reading (r : Request) (answer : View → α) :
    Finds tenant v (reading r tenant answer) fun a n => n = 0 ∧ answer v = a := by
  apply (finds_request r).bind
  rintro _ _ rfl asked scope s hs
  exact ⟨0, ⟨rfl, congrArg answer hs.view.symm⟩, hs⟩

theorem finds_pairsTouching (ids : List String) (limit : Nat) :
    Finds tenant v (pairsTouching tenant ids limit) fun pairs n =>
      n = 1 ∧ v.pairsTouching ids limit = pairs := by
  apply (finds_reading .pairsTouching (·.pairsTouching ids limit)).bind
  rintro pairs _ ⟨rfl, hpairs⟩ asked scope s hs
  exact ⟨1, ⟨rfl, hpairs⟩, hs.alone, hs.view, congrArg (· + 1) hs.asked⟩

end TxAction

/-! ## A transaction of its own -/

/-- Nobody else uses the store, these are the committed rows of a tenant, and so many times the store
was asked for the edges that touch a set of nodes. -/
structure World.Keeps (tenant : Tenant) (t : Tables) (asked : Nat) (w : World) : Prop where
  alone : w.conditions.others = []
  tables : w.store.tablesOf tenant = t
  asked : w.store.expansions = asked

namespace Action

variable {t : Tables}

theorem beholds_begin (access : Access) :
    Meets (begin access) (World.Keeps tenant t asked)
      (fun tx w => Session.Beholds tenant t.view asked ⟨w, tx⟩) (fun _ _ => True) := by
  have hrequest : Meets (request .begin) (World.Keeps tenant t asked)
      (fun _ => World.Keeps tenant t asked) (fun _ => World.Keeps tenant t asked) := by
    apply Meets.request
    · exact fun w time h => ⟨h.alone, h.tables, h.asked⟩
    · intro w h
      rw [Conditions.meanwhile_of_others_eq_nil h.alone]
      exact ⟨h.alone, h.tables, h.asked⟩
  apply (hrequest.weaken (fun _ h => h) (fun _ _ h => h) fun _ _ _ => trivial).bind
  intro _ scope w hw
  refine ⟨hw.alone, ?_, hw.asked⟩
  rw [← hw.tables]
  exact Store.view_begin w.store access tenant

/-- To commit does not ask for anything. -/
theorem asked_commit (tx : Transaction) :
    Meets (commit tx) (fun w => Session.Beholds tenant v asked ⟨w, tx⟩)
      (fun _ w => w.store.expansions = asked) (fun _ _ => True) := by
  apply ((Session.Beholds.request .commit tx).weaken (fun _ h => h) (fun _ _ h => h)
    fun _ _ _ => trivial).bind
  intro _ scope w hw
  show (w.store.commit tx).expansions = asked
  rw [← hw.asked, Store.commit]
  split <;> rfl

/-- What a transaction of its own answers is described by the committed graph. -/
theorem transact_finds {access : Access} {body : TxAction α} {described : α → Nat → Prop}
    {scope : Scope} {w u : World} {a : α} (halone : w.conditions.others = [])
    (hbody : body.Finds tenant (w.store.tablesOf tenant).view described)
    (hrun : transact access body scope w = .ok a u) :
    ∃ n, described a n ∧ u.store.expansions = w.store.expansions + n := by
  have hmeets : Meets (transact access body)
      (World.Keeps tenant (w.store.tablesOf tenant) w.store.expansions)
      (fun a u => ∃ n, described a n ∧ u.store.expansions = w.store.expansions + n)
      (fun _ _ => True) := by
    apply Meets.transact (fun _ _ _ => trivial) (beholds_begin access)
      ((hbody w.store.expansions).weaken (fun _ h => h) (fun _ _ h => h) fun _ _ _ => trivial)
    · rintro a tx scope opened ⟨n, ha, hs⟩
      have hcommit := asked_commit tx scope opened hs
      cases hrun : commit tx scope opened with
      | ok _ u =>
          rw [hrun] at hcommit
          exact ⟨n, ha, hcommit⟩
      | error f u => trivial
    · exact fun f => .of_finalState fun _ _ _ => trivial
  have hafter := hmeets scope w ⟨halone, rfl, rfl⟩
  rw [hrun] at hafter
  exact hafter

end Action
end SalientGraph
