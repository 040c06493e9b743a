import SalientGraph.Proofs.Confinement
import SalientGraph.Proofs.Interleaving

/-!
# Processes do what the engine does

The engine runs a script in one go, and a process goes through it step by step. Whatever
others commit between its requests, a run of the engine is a process that goes on over
the store as it changes meanwhile, and stages the same.
-/

namespace SalientGraph

/-- A process goes on, one step after the other, over a store that others may change meanwhile. -/
inductive Process.GoesOn (others : List Transaction) :
    Store → Process → Store → Process → Prop where
  | done {s : Store} {p : Process} : GoesOn others s p s p
  | meanwhile {s t : Store} {p q : Process} {tx : Transaction} (hother : tx ∈ others)
      (hrest : GoesOn others (s.commit tx) p t q) : GoesOn others s p t q
  | step {s t : Store} {p p' q : Process} (now : Timestamp) (hstep : p.advance s now = some p')
      (hrest : GoesOn others s p' t q) : GoesOn others s p t q

/-- The transactions that others commit under these conditions. -/
def Conditions.committing (c : Conditions) : List Transaction :=
  c.others.map (·.2)

namespace Process

theorem GoesOn.of_foldl_commit {others : List Transaction} {t : Store} {p q : Process}
    (due : List (Nat × Transaction)) :
    ∀ {s : Store}, (∀ other ∈ due, other.2 ∈ others) →
      GoesOn others (due.foldl (fun s other => s.commit other.2) s) p t q →
        GoesOn others s p t q := by
  induction due with
  | nil => exact fun _ h => h
  | cons other due ih =>
      intro s hdue h
      apply GoesOn.meanwhile (hdue other List.mem_cons_self)
      exact ih (fun later hlater => hdue later (List.mem_cons_of_mem other hlater)) h

/-- What others commit with a request is committed before the next step. -/
theorem GoesOn.of_meanwhile {c : Conditions} (served : Nat) {s t : Store} {p q : Process}
    (h : GoesOn c.committing (c.meanwhile served s) p t q) : GoesOn c.committing s p t q := by
  apply GoesOn.of_foldl_commit _ _ h
  intro other hother
  exact List.mem_map_of_mem (List.mem_filter.1 hother).1

end Process

namespace Action

theorem eq_of_check_eq_ok {scope : Scope} {w v : World} (h : check scope w = .ok () v) :
    v = w := by
  unfold check at h
  split at h
  · exact (EStateM.Result.ok.inj h).2.symm
  · contradiction

/-- While a request waits, only time goes by. -/
theorem store_of_request_eq_ok {r : Request} {scope : Scope} {w v : World}
    (h : request r scope w = .ok () v) :
    v.store = w.conditions.meanwhile w.served w.store ∧ v.conditions = w.conditions := by
  rw [request_apply] at h
  obtain ⟨_, u, hwait, hrest⟩ := exists_of_bind_eq_ok h
  have hu : u.store = w.conditions.meanwhile w.served w.store ∧ u.conditions = w.conditions := by
    unfold wait at hwait
    split at hwait
    · rw [← (EStateM.Result.ok.inj hwait).2]
      exact ⟨rfl, rfl⟩
    · contradiction
  cases hfailure : w.conditions.failure w.served r with
  | some reason =>
      rw [hfailure] at hrest
      contradiction
  | none =>
      rw [hfailure] at hrest
      rw [← (EStateM.Result.ok.inj hrest).2]
      exact hu

/-- In a transaction, an action changes the world only. -/
theorem exists_of_inTransaction_eq_ok {α : Type} {act : Action α} {scope : Scope} {s t : Session}
    {a : α} (h : inTransaction act scope s = .ok a t) :
    ∃ w, act scope s.world = .ok a w ∧ t = { s with world := w } := by
  unfold inTransaction at h
  split at h
  · rename_i b w hact
    obtain ⟨rfl, rfl⟩ := EStateM.Result.ok.inj h
    exact ⟨w, hact, rfl⟩
  · contradiction

end Action

namespace Script

open Process (GoesOn)

/-- A run that is answered is a process that gets to the end of its script. -/
theorem goesOn_of_run (p : Script Unit) :
    ∀ {scope : Scope} {s t : Session}, p.run scope s = .ok () t →
      ∀ calls, ∃ calls', GoesOn s.world.conditions.committing s.world.store ⟨p, s.tx, calls⟩
        t.world.store ⟨.answer (), t.tx, calls'⟩ := by
  induction p with
  | answer a =>
      intro scope s t h calls
      cases h
      exact ⟨calls, .done⟩
  | refuse f =>
      intro scope s t h
      contradiction
  | check rest ih =>
      intro scope s t h calls
      obtain ⟨_, u, hcheck, hrest⟩ := exists_of_bind_eq_ok h
      obtain ⟨w, hw, rfl⟩ := Action.exists_of_inTransaction_eq_ok hcheck
      rw [Action.eq_of_check_eq_ok hw] at hrest
      obtain ⟨calls', hgoes⟩ := ih hrest calls
      exact ⟨calls', .step default rfl hgoes⟩
  | today rest ih =>
      intro scope s t h calls
      obtain ⟨now, u, hnow, hrest⟩ := exists_of_bind_eq_ok h
      cases hnow
      obtain ⟨calls', hgoes⟩ := ih _ hrest calls
      exact ⟨calls', .step _ rfl hgoes⟩
  | read r tenant rest ih =>
      intro scope s t h calls
      obtain ⟨v, u, hread, hrest⟩ := exists_of_bind_eq_ok h
      obtain ⟨_, middle, hrequest, hview⟩ := exists_of_bind_eq_ok hread
      obtain ⟨w, hw, rfl⟩ := Action.exists_of_inTransaction_eq_ok hrequest
      obtain ⟨hstore, hconditions⟩ := Action.store_of_request_eq_ok hw
      cases hview
      -- the view is that of the store after the request
      obtain ⟨calls', hgoes⟩ := ih _ hrest calls
      rw [hconditions] at hgoes
      refine ⟨calls', .of_meanwhile s.world.served ?_⟩
      rw [← hstore]
      exact .step default rfl hgoes
  | write tenant w rest ih =>
      intro scope s t h calls
      obtain ⟨a, u, hwrite, hrest⟩ := exists_of_bind_eq_ok h
      obtain ⟨_, middle, hrequest, hstage⟩ := exists_of_bind_eq_ok hwrite
      obtain ⟨v, hv, rfl⟩ := Action.exists_of_inTransaction_eq_ok hrequest
      obtain ⟨hstore, hconditions⟩ := Action.store_of_request_eq_ok hv
      unfold TxAction.stage at hstage
      split at hstage
      · rename_i answer tx hstaged
        cases hstage
        obtain ⟨calls', hgoes⟩ := ih a hrest (calls ++ [(tenant, w)])
        rw [hconditions] at hgoes
        refine ⟨calls', .of_meanwhile s.world.served ?_⟩
        rw [← hstore]
        exact .step default (Process.advance_write hstaged default rest calls) hgoes
      · contradiction

/-- A run of a script that puts nothing is its job, gone through to the end. -/
theorem Modest.goesOn_of_run {α : Type} {p : Script α} (hp : p.Modest) {scope : Scope}
    {s t : Session} {a : α} (h : p.run scope s = .ok a t) :
    ∃ calls, GoesOn s.world.conditions.committing s.world.store ⟨hp.job.script, s.tx, []⟩
      t.world.store ⟨.answer (), t.tx, calls⟩ := by
  have hrun : hp.job.script.run scope s = .ok () t := by
    show (p >>= fun _ => pure ()).run scope s = .ok () t
    rw [run_bind, bind_apply_of_ok h]
    rfl
  exact Script.goesOn_of_run hp.job.script hrun []

end Script

end SalientGraph
