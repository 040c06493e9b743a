import SalientGraph.Proofs.Confinement

/-!
# What is answered when nothing goes wrong

A contract says what an action leaves behind, not that it gets as far as an answer. Here
it does: within a given scope, from any state as described. In a calm world no request
fails or takes any time, so that a scope which is not over now is not over later either.
Where requests take their time, it is known when they are through.
-/

namespace SalientGraph

variable {σ α β : Type}

/-- Within the scope, the action is answered where `before` holds, and ends where `after` does. -/
def Answers (scope : Scope) (act : Acts σ α) (before : σ → Prop) (after : α → σ → Prop) : Prop :=
  ∀ s, before s → ∃ a t, act scope s = .ok a t ∧ after a t

namespace Answers

variable {scope : Scope} {before : σ → Prop}

theorem pure {after : α → σ → Prop} {a : α} (h : ∀ s, before s → after a s) :
    Answers scope (Pure.pure a : Acts σ α) before after :=
  fun s hs => ⟨a, s, rfl, h s hs⟩

theorem bind {act : Acts σ α} {next : α → Acts σ β} {middle : α → σ → Prop}
    {after : β → σ → Prop} (h : Answers scope act before middle)
    (hnext : ∀ a, Answers scope (next a) (middle a) after) :
    Answers scope (act >>= next) before after := by
  intro s hs
  obtain ⟨a, t, hact, ht⟩ := h s hs
  rw [bind_apply_of_ok hact]
  exact hnext a t ht

theorem mapM {f : α → Acts σ β} {kept : σ → Prop}
    (h : ∀ a, Answers scope (f a) kept fun _ => kept) (xs : List α) :
    Answers scope (xs.mapM f) kept fun _ => kept := by
  induction xs with
  | nil => exact pure fun _ hs => hs
  | cons x xs ih =>
      rw [List.mapM_cons]
      exact (h x).bind fun _ => ih.bind fun _ => pure fun _ hs => hs

end Answers

/-- No request fails or takes any time, and the scope is not over. -/
structure World.Calm (scope : Scope) (w : World) : Prop where
  failure : ∀ served r, w.conditions.failure served r = none
  delay : ∀ served r, w.conditions.delay served r = 0
  live : scope.check w.clock = .ok ()

/-- The store behaves in a certain way, and it is a certain time. -/
structure World.At (conditions : Conditions) (time : Nat) (w : World) : Prop where
  conditions : w.conditions = conditions
  clock : w.clock = time

/-- The world is as described and the transaction is for writing. -/
structure Session.Writing (described : World → Prop) (s : Session) : Prop where
  world : described s.world
  writable : s.tx.access.isWritable = true

namespace Action

variable {scope : Scope} {before after : World → Prop}

/-! ## In a calm world -/

theorem answers_check : Answers scope check (World.Calm scope) fun _ => World.Calm scope := by
  intro w hw
  refine ⟨(), w, ?_, hw⟩
  unfold check
  rw [hw.live]

/-- In a calm world a request is answered whatever the scope. -/
theorem request_of_calm {w : World} (h : w.Calm scope) (r : Request) (other : Scope) :
    request r other w = .ok ()
      { w with served := w.served + 1, store := w.conditions.meanwhile w.served w.store } := by
  have hwait : ∀ v : World, wait 0 other v = .ok () v := by
    intro v
    unfold wait
    show EStateM.Result.ok () (v.advance v.clock) = _
    rw [World.advance_clock]
  rw [request_apply, h.delay, h.failure]
  exact bind_apply_of_ok (hwait _)

theorem answers_request (r : Request) :
    Answers scope (request r) (World.Calm scope) fun _ => World.Calm scope :=
  fun _ hw => ⟨_, _, request_of_calm hw r scope, hw.failure, hw.delay, hw.live⟩

theorem answers_begin :
    Answers scope (begin .readWrite) (World.Calm scope)
      fun tx w => Session.Writing (World.Calm scope) ⟨w, tx⟩ := by
  apply (answers_request .begin).bind
  intro _ w hw
  exact ⟨_, _, rfl, ⟨hw.failure, hw.delay, hw.live⟩, rfl⟩

theorem answers_commit (tx : Transaction) :
    Answers scope (uninterrupted (commit tx)) (World.Calm scope) fun _ => World.Calm scope :=
  fun _ hw => ⟨(), _, bind_apply_of_ok (request_of_calm hw .commit .unbounded), hw.failure,
    hw.delay, hw.live⟩

/-! ## At a certain time -/

section
variable {c : Conditions} {time duration : Nat}

theorem answers_check_at (hlive : scope.check time = .ok ()) :
    Answers scope check (World.At c time) fun _ => World.At c time := by
  intro w hw
  refine ⟨(), w, ?_, hw⟩
  unfold check
  rw [hw.clock, hlive]

/-- A request that does not fail is answered when its time is up, if the scope lasts so long. -/
theorem answers_request_at {r : Request} (hfailure : ∀ served, c.failure served r = none)
    (hdelay : ∀ served, c.delay served r = duration)
    (hwait : scope.wait time duration = (.ok (), time + duration)) :
    Answers scope (request r) (World.At c time) fun _ => World.At c (time + duration) := by
  intro w hw
  let v : World :=
    { w with served := w.served + 1, store := w.conditions.meanwhile w.served w.store }
  have hwaited : wait duration scope v = .ok () (v.advance (time + duration)) := by
    unfold wait
    rw [show v.clock = time from hw.clock, hwait]
  refine ⟨(), v.advance (time + duration), ?_, hw.conditions, rfl⟩
  rw [request_apply, hw.conditions, hfailure, hdelay, ← hw.conditions]
  exact bind_apply_of_ok hwaited

theorem answers_begin_at (hrequest : Answers scope (request .begin) (World.At c time)
    fun _ => World.At c time) :
    Answers scope (begin .readWrite) (World.At c time)
      fun tx w => Session.Writing (World.At c time) ⟨w, tx⟩ := by
  apply hrequest.bind
  intro _ w hw
  exact ⟨_, _, rfl, ⟨hw.conditions, hw.clock⟩, rfl⟩

theorem answers_commit_at (hrequest : Answers .unbounded (request .commit) (World.At c time)
    fun _ => World.At c time) (tx : Transaction) :
    Answers scope (uninterrupted (commit tx)) (World.At c time) fun _ => World.At c time := by
  intro w hw
  obtain ⟨_, v, hrun, hv⟩ := hrequest w hw
  exact ⟨(), _, bind_apply_of_ok hrun, hv.conditions, hv.clock⟩

end

/-! ## Transactions -/

/-- A session for writing that is answered is committed. -/
theorem answers_transact {body : TxAction α}
    (hcheck : Answers scope check before fun _ => before)
    (hbegin : Answers scope (begin .readWrite) before fun tx w => Session.Writing before ⟨w, tx⟩)
    (hbody : Answers scope body (Session.Writing before) fun _ => Session.Writing after)
    (hcommit : ∀ tx, Answers scope (uninterrupted (commit tx)) after fun _ => after) :
    Answers scope (transact .readWrite body) before fun _ => after := by
  apply hcheck.bind
  intro _
  apply hbegin.bind
  intro tx w hw
  obtain ⟨a, s, hrun, hs⟩ := hbody ⟨w, tx⟩ hw
  obtain ⟨_, v, hcommitted, hv⟩ := hcommit s.tx s.world hs.world
  exact ⟨a, v, (bind_apply_of_ok (session_of_ok hrun)).trans (bind_apply_of_ok hcommitted), hv⟩

end Action

namespace TxAction

variable {scope : Scope} {tenant : Tenant} {before after : World → Prop}

/-- In a transaction, what is answered in the world is answered as well. -/
theorem answers_inTransaction {act : Action α} (h : Answers scope act before fun _ => after) :
    Answers scope (Action.inTransaction act) (Session.Writing before)
      fun _ => Session.Writing after := by
  intro s hs
  obtain ⟨a, w, hrun, hw⟩ := h s.world hs.world
  refine ⟨a, { s with world := w }, ?_, hw, hs.writable⟩
  unfold Action.inTransaction
  rw [hrun]

theorem answers_step (hcheck : Answers scope Action.check before fun _ => before)
    {act : TxAction α} {after : α → Session → Prop}
    (h : Answers scope act (Session.Writing before) after) :
    Answers scope (step act) (Session.Writing before) after :=
  (answers_inTransaction hcheck).bind fun _ => h

theorem answers_reading {r : Request}
    (hrequest : Answers scope (Action.request r) before fun _ => after) (answer : View → α) :
    Answers scope (reading r tenant answer) (Session.Writing before)
      fun _ => Session.Writing after :=
  (answers_inTransaction hrequest).bind fun _ s hs => ⟨_, s, rfl, hs⟩

/-- A write of the tenant's own is not refused in a transaction for writing. -/
theorem answers_writing {r : Request}
    (hrequest : Answers scope (Action.request r) before fun _ => after)
    {write : Store → Transaction → Except Fault (α × Transaction)} (h : Own tenant write) :
    Answers scope (writing r write) (Session.Writing before) fun _ => Session.Writing after := by
  obtain ⟨answer, staged, hwrite⟩ := h
  apply (answers_inTransaction hrequest).bind
  intro _ s hs
  obtain ⟨tx, hrun, haccess, -⟩ := hwrite s.world.store s.tx hs.writable
  refine ⟨answer (s.world.store.view s.tx tenant), { s with tx := tx }, ?_, hs.world, ?_⟩
  · unfold stage
    rw [hrun]
  · show tx.access.isWritable = true
    rw [haccess]
    exact hs.writable

end TxAction
end SalientGraph
