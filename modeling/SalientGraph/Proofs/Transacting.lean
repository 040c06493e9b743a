import SalientGraph.Proofs.Contract
import SalientGraph.Proofs.Store.Overlay
import SalientGraph.Session

/-!
# Contracts around transactions

Rules for what actions are made of: a request keeps whatever neither time nor the
commits of others break, and a transaction of its own meets a contract if its session
does, its beginning before it and either end after it.
-/

namespace SalientGraph

/-- The graph of a tenant as a session sees it. -/
def Session.view (s : Session) (tenant : Tenant) : View :=
  s.world.store.view s.tx tenant

/-- The graphs that the views of a session come to. -/
def Session.graphs (s : Session) : Tenant → Tables :=
  fun tenant => (s.view tenant).settled

variable {α β : Type}

namespace Action

/-- A request counts, lets others commit, and then waits and fails as it is bound to. -/
theorem request_apply (r : Request) (scope : Scope) (w : World) :
    request r scope w =
      (wait (w.conditions.delay w.served r) >>= fun _ =>
        match w.conditions.failure w.served r with
        | some reason => throw (.storage reason)
        | none => pure ()) scope
        { w with served := w.served + 1, store := w.conditions.meanwhile w.served w.store } := rfl

theorem session_apply (tx : Transaction) (body : TxAction α) (scope : Scope) (w : World) :
    let run := body scope ⟨w, tx⟩
    session tx body scope w = .ok (outcomeOf run, (finalState run).tx) (finalState run).world := by
  unfold session
  cases body scope ⟨w, tx⟩ <;> rfl

section
variable {body : TxAction α} {tx : Transaction} {scope : Scope} {w : World} {s : Session}

theorem session_of_ok {a : α} (h : body scope ⟨w, tx⟩ = .ok a s) :
    session tx body scope w = .ok (.ok a, s.tx) s.world := by
  rw [session_apply, h]
  rfl

/-- A session that fails is answered with its fault, as its transaction is still to be settled. -/
theorem session_of_error {f : Fault} (h : body scope ⟨w, tx⟩ = .error f s) :
    session tx body scope w = .ok (.error f, s.tx) s.world := by
  rw [session_apply, h]
  rfl

end

/-- A transaction that is answered has been begun, its session was answered, and it was
committed. -/
theorem exists_of_transact_eq_ok {access : Access} {body : TxAction α} {scope : Scope} {w v : World}
    {a : α} (h : transact access body scope w = .ok a v) :
    ∃ tx u s, check scope w = .ok () w ∧ begin access scope w = .ok tx u ∧
      body scope ⟨u, tx⟩ = .ok a s ∧
      uninterrupted (commit s.tx) scope s.world = .ok () v := by
  obtain ⟨_, w', hcheck, hbegun⟩ := exists_of_bind_eq_ok h
  have hsame : w' = w := by
    unfold check at hcheck
    split at hcheck
    · cases hcheck
      rfl
    · contradiction
  rw [hsame] at hcheck hbegun
  obtain ⟨tx, u, hbegin, hopened⟩ := exists_of_bind_eq_ok hbegun
  obtain ⟨⟨answer, tx'⟩, v', hsession, hsettle⟩ := exists_of_bind_eq_ok hopened
  cases hbody : body scope ⟨u, tx⟩ with
  | error f s =>
      -- a session that failed is not answered
      rw [session_of_error hbody] at hsession
      cases hsession
      obtain ⟨_, _, _, hthrow⟩ := exists_of_bind_eq_ok hsettle
      contradiction
  | ok b s =>
      rw [session_of_ok hbody] at hsession
      cases hsession
      obtain ⟨_, _, hcommit, hanswer⟩ := exists_of_bind_eq_ok hsettle
      cases hanswer
      exact ⟨tx, u, s, hcheck, hbegin, hbody, hcommit⟩

/-! ## Answers put into another form -/

theorem session_map (tx : Transaction) (form : α → β) (body : TxAction α) :
    session tx (form <$> body) = (fun r => (form <$> r.1, r.2)) <$> session tx body := by
  funext scope w
  show session tx (fun scope => EStateM.map form (body scope)) scope w =
    EStateM.map (fun r => (form <$> r.1, r.2)) (session tx body scope) w
  unfold EStateM.map session
  dsimp only
  cases body scope ⟨w, tx⟩ <;> rfl

theorem settle_map (tx : Transaction) (form : α → β) (outcome : Except Fault α) :
    settle tx (form <$> outcome) = form <$> settle tx outcome := by
  cases outcome with
  | ok a =>
      show (uninterrupted (commit tx) >>= fun _ => pure (form a)) = _
      unfold settle
      rw [map_bind]
      simp only [map_pure]
  | error f =>
      show (SalientGraph.Action.outcome (uninterrupted rollback) >>= fun _ => throw f) = _
      unfold settle
      rw [map_bind]
      rfl

/-- What is done with the answer of a transaction may be done before it is settled. -/
theorem transact_map (access : Access) (form : α → β) (body : TxAction α) :
    transact access (form <$> body) = form <$> transact access body := by
  unfold transact
  simp only [session_map, map_bind, bind_map_left, settle_map]

end Action

namespace Meets

section Worlds

variable {before : World → Prop} {failed : Fault → World → Prop}

theorem check (hfailed : ∀ f w, before w → failed f w) :
    Meets Action.check before (fun _ => before) failed := by
  intro scope w hw
  unfold Action.check
  cases scope.check w.clock with
  | ok _ => exact hw
  | error f => exact hfailed f w hw

theorem wait (hadvance : ∀ w time, before w → before (w.advance time)) (duration : Nat) :
    Meets (Action.wait duration) before (fun _ => before) (fun _ => before) := by
  intro scope w hw
  unfold Action.wait
  obtain ⟨outcome, time⟩ := scope.wait w.clock duration
  cases outcome with
  | ok _ => exact hadvance w time hw
  | error f => exact hadvance w time hw

/-- A request keeps what others may commit over, whenever it ends. -/
theorem request (hadvance : ∀ w time, before w → before (w.advance time))
    (hserved : ∀ w, before w → before
      { w with served := w.served + 1, store := w.conditions.meanwhile w.served w.store })
    (r : Request) :
    Meets (Action.request r) before (fun _ => before) (fun _ => before) := by
  intro scope w hw
  rw [Action.request_apply]
  apply (wait hadvance (w.conditions.delay w.served r)).bind _ scope _ (hserved w hw)
  intro _
  cases w.conditions.failure w.served r with
  | some reason => exact throw fun _ h => h
  | none => exact pure fun _ h => h

theorem uninterrupted {act : Action α} {after : α → World → Prop}
    (h : Meets act before after failed) :
    Meets (Action.uninterrupted act) before after failed :=
  fun _ w hw => h .unbounded w hw

/-- What an outcome comes of is as after an answer or as after a fault. -/
theorem outcome {act : Action α} {after : α → World → Prop} {never : Fault → World → Prop}
    (h : Meets act before after failed) :
    Meets (Action.outcome act) before
      (fun r w => match r with | .ok a => after a w | .error f => failed f w) never := by
  intro scope w hw
  have hact := h scope w hw
  unfold Action.outcome
  cases hrun : act scope w with
  | ok a v =>
      rw [hrun] at hact
      exact hact
  | error f v =>
      rw [hrun] at hact
      exact hact

end Worlds

section Sessions

variable {before : Session → Prop} {failed : Fault → Session → Prop}

/-- In a transaction, what acts on the world leaves the transaction as it is. -/
theorem inTransaction {act : Action α} {after : α → Session → Prop}
    (h : ∀ tx, Meets act (fun w => before ⟨w, tx⟩) (fun a w => after a ⟨w, tx⟩)
      (fun f w => failed f ⟨w, tx⟩)) :
    Meets (Action.inTransaction act) before after failed := by
  intro scope s hs
  have hact := h s.tx scope s.world hs
  unfold Action.inTransaction
  cases hrun : act scope s.world with
  | ok a w =>
      rw [hrun] at hact
      exact hact
  | error f w =>
      rw [hrun] at hact
      exact hact

theorem step {act : TxAction α} {after : α → Session → Prop}
    (hfailed : ∀ f s, before s → failed f s) (h : Meets act before after failed) :
    Meets (TxAction.step act) before after failed :=
  (inTransaction fun tx => check fun f w => hfailed f ⟨w, tx⟩).bind fun _ => h

/-- What is read is answered from the graph as the transaction sees it by then. -/
theorem reading {r : Request} {tenant : Tenant} (answer : View → α)
    (hrequest : ∀ tx, Meets (Action.request r) (fun w => before ⟨w, tx⟩)
      (fun _ w => before ⟨w, tx⟩) (fun f w => failed f ⟨w, tx⟩)) :
    Meets (TxAction.reading r tenant answer) before
      (fun a s => answer (s.world.store.view s.tx tenant) = a ∧ before s) failed := by
  apply (inTransaction hrequest).bind
  intro _ scope s hs
  exact ⟨rfl, hs⟩

/-- A write that is not refused is staged in the transaction. -/
theorem writing {r : Request} {write : Store → Transaction → Except Fault (α × Transaction)}
    {after : α → Session → Prop}
    (hrequest : ∀ tx, Meets (Action.request r) (fun w => before ⟨w, tx⟩)
      (fun _ w => before ⟨w, tx⟩) (fun f w => failed f ⟨w, tx⟩))
    (hfailed : ∀ f s, before s → failed f s)
    (hwrite : ∀ s a tx, before s → write s.world.store s.tx = .ok (a, tx) →
      after a { s with tx := tx }) :
    Meets (TxAction.writing r write) before after failed := by
  apply (inTransaction hrequest).bind
  intro _ scope s hs
  unfold TxAction.stage
  cases hrun : write s.world.store s.tx with
  | ok result => exact hwrite s result.1 result.2 hs hrun
  | error f => exact hfailed f s hs

/-- What follows may rest on what was done to each element of a list before. -/
theorem mapM {f : α → TxAction β} {kept : Session → Prop}
    (h : ∀ a, Meets (f a) kept (fun _ => kept) failed) (xs : List α) :
    Meets (xs.mapM f) kept (fun _ => kept) failed := by
  induction xs with
  | nil => exact pure fun _ hs => hs
  | cons x xs ih =>
      rw [List.mapM_cons]
      exact (h x).bind fun _ => ih.bind fun _ => pure fun _ hs => hs

end Sessions

/-- The outcome of a session comes with the transaction that it leaves. -/
theorem session {body : TxAction α} {opened : Session → Prop} {done : α → Session → Prop}
    {failed : Fault → Session → Prop} {never : Fault → World → Prop}
    (hbody : Meets body opened done failed) (tx : Transaction) :
    Meets (Action.session tx body) (fun w => opened ⟨w, tx⟩)
      (fun r w => match r.1 with | .ok a => done a ⟨w, r.2⟩ | .error f => failed f ⟨w, r.2⟩)
      never := by
  intro scope w hw
  have hrun := hbody scope ⟨w, tx⟩ hw
  unfold Action.session
  cases hs : body scope ⟨w, tx⟩ with
  | ok a s =>
      rw [hs] at hrun
      exact hrun
  | error f s =>
      rw [hs] at hrun
      exact hrun

/-- A fault of a session is what its transaction is given up for. -/
theorem transact {access : Access} {body : TxAction α} {before : World → Prop}
    {opened : Session → Prop} {done : α → Session → Prop} {after : α → World → Prop}
    {failed : Fault → World → Prop} (hfailed : ∀ f w, before w → failed f w)
    (hbegin : Meets (Action.begin access) before (fun tx w => opened ⟨w, tx⟩) failed)
    (hbody : Meets body opened done (fun f s => failed f s.world))
    (hcommit : ∀ a tx,
      Meets (Action.commit tx) (fun w => done a ⟨w, tx⟩) (fun _ => after a) failed)
    (hrollback : ∀ f, Meets Action.rollback (failed f) (fun _ => failed f) (fun _ => failed f)) :
    Meets (Action.transact access body) before after failed := by
  apply (check hfailed).bind
  intro _
  apply hbegin.bind
  intro tx
  apply (hbody.session tx).bind
  rintro ⟨r, tx'⟩
  cases r with
  | ok a => exact (hcommit a tx').uninterrupted.bind fun _ => pure fun _ h => h
  | error f =>
      apply (hrollback f).uninterrupted.outcome.bind
      intro r
      cases r with
      | ok _ => exact throw fun _ h => h
      | error _ => exact throw fun _ h => h

end Meets
end SalientGraph
