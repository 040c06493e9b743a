import SalientGraph.Proofs.Reading
import SalientGraph.Proofs.Transacting

/-!
# What an action comes to in time

No request fails and nobody else commits anything, but requests take time, and a scope
may be over before they are through. The clock tells when an action ends whether this
was so: time does not run backwards, so a scope that is not over then was not over
before. The action has then come to the same outcome as without any bounds of time.
-/

namespace SalientGraph

variable {σ α β : Type}

/-! ## Scopes and their time -/

namespace Scope

variable {s : Scope} {now later : Nat}

theorem check_eq_ok_iff : s.check now = .ok () ↔
    (∀ t, s.cancelledAt = some t → now < t) ∧ ∀ t, s.deadline = some t → now < t := by
  obtain ⟨deadline, cancelledAt⟩ := s
  unfold check
  cases cancelledAt <;> cases deadline <;> grind

theorem check_of_lt_deadline {deadline : Nat} (h : now < deadline) :
    check ⟨some deadline, none⟩ now = .ok () := by
  refine check_eq_ok_iff.2 ⟨fun _ hcancelled => by contradiction, ?_⟩
  rintro _ ⟨⟩
  exact h

/-- A scope that is not over later is not over now. -/
theorem check_of_le (h : s.check later = .ok ()) (hle : now ≤ later) : s.check now = .ok () := by
  rw [check_eq_ok_iff] at h ⊢
  exact ⟨fun t ht => Nat.lt_of_le_of_lt hle (h.1 t ht),
    fun t ht => Nat.lt_of_le_of_lt hle (h.2 t ht)⟩

/-- A wait goes on to its end, or it is cut short when the scope is over. -/
theorem wait_cases (s : Scope) (now duration : Nat) :
    s.wait now duration = (.ok (), now + duration) ∨
      ∃ f time, s.wait now duration = (.error f, max now time) ∧
        s.check (max now time) ≠ .ok () := by
  unfold wait
  dsimp only
  split
  · rename_i hzero
    rw [hzero]
    exact .inl rfl
  · split
    · rename_i c hc
      refine .inr ⟨.cancelled, c, rfl, ?_⟩
      intro hlive
      have hlate := (check_eq_ok_iff.1 hlive).1 c (Option.filter_eq_some_iff.1 hc).1
      exact absurd (Nat.le_max_right now c) (Nat.not_le.2 hlate)
    · split
      · rename_i d hd
        refine .inr ⟨.deadlineExceeded, d, rfl, ?_⟩
        intro hlive
        have hlate := (check_eq_ok_iff.1 hlive).2 d (Option.filter_eq_some_iff.1 hd).1
        exact absurd (Nat.le_max_right now d) (Nat.not_le.2 hlate)
      · exact .inl rfl

/-- What is run comes to its outcome at its end, or to a fault when the scope is over. -/
theorem run_cases (s : Scope) (now duration : Nat) (outcome : Except Fault α) :
    s.run now duration outcome = (outcome, now + duration) ∨
      ∃ f time, s.run now duration outcome = (.error f, max now time) ∧
        s.check (max now time) ≠ .ok () := by
  unfold run
  cases hcheck : s.check now with
  | error f =>
      refine .inr ⟨f, now, by rw [Nat.max_self], ?_⟩
      rw [Nat.max_self, hcheck]
      intro h
      contradiction
  | ok _ =>
      rcases s.wait_cases now duration with hwait | ⟨f, time, hwait, hover⟩
      · rw [hwait]
        exact .inl rfl
      · rw [hwait]
        exact .inr ⟨f, time, rfl, hover⟩

end Scope

/-! ## Outcomes -/

/-- Where a run has ended and what it has come to, if it was in time. -/
structure ComesTo.Ended (clock : σ → Nat) (quiet : σ → Prop) (scope : Scope) (s : σ)
    (r : Except Fault α) (run : EStateM.Result Fault σ α) : Prop where
  quiet : quiet (finalState run)
  later : clock s ≤ clock (finalState run)
  outcome : scope.check (clock (finalState run)) = .ok () → outcomeOf run = r

/-- From wherever it is quiet, the action ends where it is quiet again, no earlier, and with this
outcome if its scope is not over by then. -/
def ComesTo (clock : σ → Nat) (quiet : σ → Prop) (act : Acts σ α) (r : Except Fault α) : Prop :=
  ∀ scope s, quiet s → ComesTo.Ended clock quiet scope s r (act scope s)

namespace ComesTo

variable {clock : σ → Nat} {quiet : σ → Prop}

theorem pure (a : α) : ComesTo clock quiet (Pure.pure a) (.ok a) :=
  fun _ _ hs => ⟨hs, Nat.le_refl _, fun _ => rfl⟩

theorem throw (f : Fault) :
    ComesTo clock quiet (MonadExcept.throw f : Acts σ α) (.error f) :=
  fun _ _ hs => ⟨hs, Nat.le_refl _, fun _ => rfl⟩

theorem bind {act : Acts σ α} {next : α → Acts σ β} {r : Except Fault α}
    {k : α → Except Fault β} (h : ComesTo clock quiet act r)
    (hnext : ∀ a, ComesTo clock quiet (next a) (k a)) :
    ComesTo clock quiet (act >>= next) (r >>= k) := by
  intro scope s hs
  have hact := h scope s hs
  cases hrun : act scope s with
  | ok a t =>
      rw [hrun] at hact
      rw [bind_apply_of_ok hrun]
      have hafter := hnext a scope t hact.quiet
      refine ⟨hafter.quiet, Nat.le_trans hact.later hafter.later, ?_⟩
      intro hlive
      -- the scope was not over after the first link either
      have hfirst : .ok a = r := hact.outcome (Scope.check_of_le hlive hafter.later)
      rw [hafter.outcome hlive, ← hfirst]
      rfl
  | error f t =>
      rw [hrun] at hact
      rw [bind_apply_of_error hrun]
      refine ⟨hact.quiet, hact.later, ?_⟩
      intro hlive
      have hfirst : .error f = r := hact.outcome hlive
      rw [← hfirst]
      rfl

/-- After a link that is answered, a chain comes to what follows. -/
theorem after {act : Acts σ Unit} {next : Unit → Acts σ β} {r : Except Fault β}
    (h : ComesTo clock quiet act (.ok ())) (hnext : ComesTo clock quiet (next ()) r) :
    ComesTo clock quiet (act >>= next) r :=
  h.bind fun _ => hnext

/-- What is looked up where it is quiet is known beforehand. -/
theorem known {act : Acts σ α} {next : α → Acts σ β} {a : α} {r : Except Fault β}
    (h : ∀ scope s, quiet s → act scope s = .ok a s) (hnext : ComesTo clock quiet (next a) r) :
    ComesTo clock quiet (act >>= next) r := by
  intro scope s hs
  rw [bind_apply_of_ok (h scope s hs)]
  exact hnext scope s hs

/-- What comes to the same after every answer of its first link comes to it. -/
theorem whatever {act : Acts σ α} {next : α → Acts σ β} {r : Except Fault β}
    (h : ∀ scope s, quiet s → ∃ a t, act scope s = .ok a t ∧ quiet t ∧ clock s ≤ clock t)
    (hnext : ∀ a, ComesTo clock quiet (next a) r) : ComesTo clock quiet (act >>= next) r := by
  intro scope s hs
  obtain ⟨a, t, hact, ht, hle⟩ := h scope s hs
  rw [bind_apply_of_ok hact]
  obtain ⟨hquiet, hlater, houtcome⟩ := hnext a scope t ht
  exact ⟨hquiet, Nat.le_trans hle hlater, houtcome⟩

theorem attempt {act : Acts σ α} {r : Except Fault α} (h : ComesTo clock quiet act r) :
    ComesTo clock quiet (attempt act) (.ok r) := by
  intro scope s hs
  obtain ⟨hquiet, hlater, houtcome⟩ := h scope s hs
  rw [attempt_apply]
  exact ⟨hquiet, hlater, fun hlive => congrArg Except.ok (houtcome hlive)⟩

end ComesTo

/-- Wherever it is quiet, the action is answered with this within every scope that is not over when
the action ends. -/
def AnsweredInTime (clock : σ → Nat) (quiet : σ → Prop) (act : Acts σ α) (a : α) : Prop :=
  ∀ (scope : Scope) (s : σ), quiet s → scope.check (clock (finalState (act scope s))) = .ok () →
    ∃ u, act scope s = .ok a u

theorem ComesTo.answeredInTime {clock : σ → Nat} {quiet : σ → Prop} {act : Acts σ α} {a : α}
    (h : ComesTo clock quiet act (.ok a)) : AnsweredInTime clock quiet act a := by
  intro scope s hs hlasts
  exact exists_ok_of_outcomeOf ((h scope s hs).outcome hlasts)

/-! ## Placid worlds -/

/-- Of some worlds it is known that nobody else uses the store, that no request fails, and what the
committed rows of a tenant are. Time, requests and the start of transactions do not lead out of
them. -/
structure World.Placid (tenant : Tenant) (t : Tables) (quiet : World → Prop) : Prop where
  alone : ∀ {w}, quiet w → w.conditions.others = []
  sound : ∀ {w}, quiet w → ∀ served r, w.conditions.failure served r = none
  tables : ∀ {w}, quiet w → w.store.tablesOf tenant = t
  advance : ∀ {w}, quiet w → ∀ time, quiet (w.advance time)
  served : ∀ {w}, quiet w → quiet { w with served := w.served + 1 }
  begun : ∀ {w}, quiet w → ∀ access, quiet { w with store := (w.store.begin access).2 }

/-- The world is quiet, and nothing has been staged in the transaction. -/
structure Session.Unwritten (quiet : World → Prop) (s : Session) : Prop where
  world : quiet s.world
  unwritten : s.tx.changes = ∅

/-- The scope is not over when the action ends. -/
def Scope.Outlasts (scope : Scope) (act : Action α) (w : World) : Prop :=
  scope.check (finalState (act scope w)).clock = .ok ()

variable {tenant : Tenant} {t : Tables} {quiet : World → Prop}

/-- In a quiet session, the graph of the tenant is the committed one. -/
theorem Session.Unwritten.view_eq {s : Session} (hs : s.Unwritten quiet)
    (hquiet : World.Placid tenant t quiet) : s.world.store.view s.tx tenant = t.view := by
  have hchanges : s.tx.changesOf tenant = {} := by
    simp [Transaction.changesOf, hs.unwritten]
  rw [Store.view, hchanges, hquiet.tables hs.world]
  rfl

/-- The action comes to its outcome in the worlds. -/
abbrev Action.SettlesIn (quiet : World → Prop) (act : Action α) (r : Except Fault α) : Prop :=
  ComesTo World.clock quiet act r

/-- The action comes to its outcome in the sessions of the worlds. -/
abbrev TxAction.SettlesIn (quiet : World → Prop) (body : TxAction α) (r : Except Fault α) : Prop :=
  ComesTo (·.world.clock) (Session.Unwritten quiet) body r

theorem Action.check_settlesIn : SettlesIn quiet check (.ok ()) := by
  intro scope w hw
  unfold check
  cases hlive : scope.check w.clock with
  | ok _ => exact ⟨hw, Nat.le_refl _, fun _ => rfl⟩
  | error f =>
      refine ⟨hw, Nat.le_refl _, ?_⟩
      intro hok
      have hover : scope.check w.clock = .ok () := hok
      rw [hlive] at hover
      contradiction

namespace World.Placid

variable (hquiet : Placid tenant t quiet)
include hquiet

theorem wait (duration : Nat) : Action.SettlesIn quiet (Action.wait duration) (.ok ()) := by
  intro scope w hw
  unfold Action.wait
  rcases scope.wait_cases w.clock duration with hwait | ⟨f, time, hwait, hover⟩
  · rw [hwait]
    exact ⟨hquiet.advance hw _, Nat.le_add_right _ _, fun _ => rfl⟩
  · rw [hwait]
    exact ⟨hquiet.advance hw _, Nat.le_max_left _ _, fun hlive => absurd hlive hover⟩

/-- What is run comes to its outcome. -/
theorem run (duration : Nat) (outcome : Except Fault α) :
    Action.SettlesIn quiet (Action.run duration outcome) outcome := by
  intro scope w hw
  unfold Action.run
  rcases scope.run_cases w.clock duration outcome with hrun | ⟨f, time, hrun, hover⟩
  · rw [hrun]
    cases outcome <;> exact ⟨hquiet.advance hw _, Nat.le_add_right _ _, fun _ => rfl⟩
  · rw [hrun]
    exact ⟨hquiet.advance hw _, Nat.le_max_left _ _, fun hlive => absurd hlive hover⟩

/-- Whatever its delay, a request is answered. -/
theorem request (r : Request) : Action.SettlesIn quiet (Action.request r) (.ok ()) := by
  intro scope w hw
  rw [Action.request_apply, hquiet.sound hw, Conditions.meanwhile_of_others_eq_nil (hquiet.alone hw)]
  obtain ⟨hw', hlater, houtcome⟩ :=
    (hquiet.wait (w.conditions.delay w.served r)).after (.pure ()) scope _ (hquiet.served hw)
  exact ⟨hw', hlater, houtcome⟩

end World.Placid

namespace Action

theorem SettlesIn.ofOutcome (outcome : Except Fault α) :
    SettlesIn quiet (ofOutcome outcome) outcome := by
  cases outcome with
  | ok a => exact .pure a
  | error f => exact .throw f

/-- What is run to its end comes to its outcome whatever the scope. -/
theorem SettlesIn.uninterrupted {act : Action α} {r : Except Fault α}
    (h : SettlesIn quiet act r) : SettlesIn quiet (uninterrupted act) r := by
  intro scope w hw
  obtain ⟨hquiet, hlater, houtcome⟩ := h .unbounded w hw
  exact ⟨hquiet, hlater, fun _ => houtcome (Scope.check_unbounded _)⟩

/-- A transaction in which nothing has been staged is settled by what came of it. -/
theorem settle_settlesIn (hquiet : World.Placid tenant t quiet) {tx : Transaction}
    (htx : tx.changes = ∅) (outcome : Except Fault α) :
    SettlesIn quiet (settle tx outcome) outcome := by
  have hclean : tx.isClean = true := by
    simp [Transaction.isClean, htx]
  cases outcome with
  | ok a =>
      have hcommit : SettlesIn quiet (commit tx) (.ok ()) := by
        apply (hquiet.request .commit).after
        intro scope w hw
        have hsame : w.store.commit tx = w.store := Store.commit_of_isClean hclean
        refine ⟨?_, Nat.le_refl _, fun _ => rfl⟩
        show quiet { w with store := w.store.commit tx }
        rw [hsame]
        exact hw
      exact hcommit.uninterrupted.after (.pure a)
  | error f =>
      unfold settle
      rw [outcome_eq_attempt]
      have hrollback : SettlesIn quiet rollback (.ok ()) := hquiet.request .rollback
      exact hrollback.uninterrupted.attempt.bind fun _ => .throw f

/-- A transaction of its own comes to what its session comes to. -/
theorem transact_settlesIn (hquiet : World.Placid tenant t quiet) {access : Access}
    {body : TxAction α} {r : Except Fault α} (hbody : TxAction.SettlesIn quiet body r) :
    SettlesIn quiet (transact access body) r := by
  have hopened : ∀ tx : Transaction, tx.changes = ∅ →
      SettlesIn quiet (session tx body >>= fun p => settle p.2 p.1) r := by
    intro tx htx scope w hw
    -- the session may have been cut short, but then the scope is over when the transaction is settled
    obtain ⟨hs, hlater, houtcome⟩ := hbody scope ⟨w, tx⟩ ⟨hw, htx⟩
    rw [bind_apply_of_ok (session_apply tx body scope w)]
    have hsettled := settle_settlesIn hquiet hs.unwritten (outcomeOf (body scope ⟨w, tx⟩)) scope _
      hs.world
    refine ⟨hsettled.quiet, Nat.le_trans hlater hsettled.later, ?_⟩
    intro hlive
    rw [hsettled.outcome hlive, houtcome (Scope.check_of_le hlive hsettled.later)]
  apply check_settlesIn.after
  unfold begin
  rw [bind_assoc]
  apply (hquiet.request .begin).after
  intro scope w hw
  obtain ⟨hw', hlater, houtcome⟩ := hopened (w.store.begin access).1 rfl scope _
    (hquiet.begun hw access)
  exact ⟨hw', hlater, houtcome⟩

end Action

/-- Whether sessions are calm depends on their worlds only as far as these are quiet. -/
structure Session.RestsOn (quiet : World → Prop) (calm : Session → Prop) : Prop where
  world : ∀ {s}, calm s → quiet s.world
  moved : ∀ {s}, calm s → ∀ {w}, quiet w → calm { s with world := w }

theorem Session.restsOn_unwritten (quiet : World → Prop) :
    Session.RestsOn quiet (Session.Unwritten quiet) where
  world hs := hs.world
  moved hs _ hw := ⟨hw, hs.unwritten⟩

namespace Session.RestsOn

variable {calm : Session → Prop} (h : RestsOn quiet calm)
include h

theorem inTransaction {act : Action α} {r : Except Fault α} (hact : Action.SettlesIn quiet act r) :
    ComesTo (·.world.clock) calm (Action.inTransaction act) r := by
  intro scope s hs
  obtain ⟨hquiet, hlater, houtcome⟩ := hact scope s.world (h.world hs)
  unfold Action.inTransaction
  cases hrun : act scope s.world with
  | ok a w =>
      rw [hrun] at hquiet hlater houtcome
      exact ⟨h.moved hs hquiet, hlater, houtcome⟩
  | error f w =>
      rw [hrun] at hquiet hlater houtcome
      exact ⟨h.moved hs hquiet, hlater, houtcome⟩

variable {v : View} (hquiet : World.Placid tenant t quiet)
  (hview : ∀ s, calm s → s.world.store.view s.tx tenant = v)
include hquiet hview

/-- Where all sessions see one graph, they read the same. -/
theorem reading (r : Request) (answer : View → α) :
    ComesTo (·.world.clock) calm (TxAction.reading r tenant answer) (.ok (answer v)) :=
  (h.inTransaction (hquiet.request r)).after
    (.known (fun _ s hs => congrArg (EStateM.Result.ok · s) (hview s hs)) (.pure (answer v)))

/-- While the store can rank by embeddings, it does so for every embedding with a coordinate. -/
theorem vectorCandidates (honline : ∀ s, calm s → s.world.store.vectorOnline = true)
    {embedding : List Single} (hembedding : embedding ≠ []) (limit : Nat) :
    ComesTo (·.world.clock) calm (TxAction.vectorCandidates tenant embedding limit)
      (.ok (v.vectorCandidates embedding limit)) := by
  apply (h.inTransaction (hquiet.request .vectorCandidates)).after
  apply ComesTo.known fun _ s hs => congrArg (EStateM.Result.ok · s) (honline s hs)
  cases embedding with
  | nil => exact absurd rfl hembedding
  | cons x xs =>
      have hseen : ∀ scope s, calm s → TxAction.view tenant scope s = .ok v s :=
        fun _ s hs => congrArg (EStateM.Result.ok · s) (hview s hs)
      exact .known hseen (.pure _)

end Session.RestsOn

namespace TxAction

theorem SettlesIn.inTransaction {act : Action α} {r : Except Fault α}
    (h : Action.SettlesIn quiet act r) : SettlesIn quiet (Action.inTransaction act) r :=
  (Session.restsOn_unwritten quiet).inTransaction h

theorem SettlesIn.ofOutcome (outcome : Except Fault α) :
    SettlesIn quiet (Action.inTransaction (Action.ofOutcome outcome)) outcome :=
  SettlesIn.inTransaction (Action.SettlesIn.ofOutcome outcome)

theorem SettlesIn.step {act : TxAction α} {r : Except Fault α} (h : SettlesIn quiet act r) :
    SettlesIn quiet (step act) r :=
  (SettlesIn.inTransaction Action.check_settlesIn).after h

theorem reading_settlesIn (hquiet : World.Placid tenant t quiet) (r : Request)
    (answer : View → α) : SettlesIn quiet (reading r tenant answer) (.ok (answer t.view)) :=
  (Session.restsOn_unwritten quiet).reading hquiet (fun _ hs => hs.view_eq hquiet) r answer

end TxAction

/-! ## Quiet worlds -/

/-- Nobody else uses the store, no request fails, the store can rank by terms, these are the
committed rows of a tenant, and this is whether the store can rank by embeddings. -/
structure World.Quiet (tenant : Tenant) (t : Tables) (online : Bool) (w : World) : Prop where
  alone : w.conditions.others = []
  sound : ∀ served r, w.conditions.failure served r = none
  fullText : w.conditions.fullText = true
  tables : w.store.tablesOf tenant = t
  online : w.store.vectorOnline = online

theorem World.placid_quiet (tenant : Tenant) (t : Tables) (online : Bool) :
    World.Placid tenant t (World.Quiet tenant t online) where
  alone hw := hw.alone
  sound hw := hw.sound
  tables hw := hw.tables
  advance hw _ := ⟨hw.alone, hw.sound, hw.fullText, hw.tables, hw.online⟩
  served hw := ⟨hw.alone, hw.sound, hw.fullText, hw.tables, hw.online⟩
  begun hw _ := ⟨hw.alone, hw.sound, hw.fullText, hw.tables, hw.online⟩

/-- The world is quiet, and nothing has been staged in the transaction. -/
abbrev Session.Quiet (tenant : Tenant) (t : Tables) (online : Bool) (s : Session) : Prop :=
  s.Unwritten (World.Quiet tenant t online)

variable {online : Bool}

/-- The session at another time. -/
def Session.at (s : Session) (time : Nat) : Session :=
  { s with world := { s.world with clock := time } }

theorem Session.quiet_at {s : Session} (hs : s.Quiet tenant t online) (time : Nat) :
    (s.at time).Quiet tenant t online :=
  ⟨⟨hs.world.alone, hs.world.sound, hs.world.fullText, hs.world.tables, hs.world.online⟩,
    hs.unwritten⟩

/-- In a quiet world, an action comes to an outcome, and the world stays quiet. -/
abbrev Action.Settles (tenant : Tenant) (t : Tables) (online : Bool) (act : Action α)
    (r : Except Fault α) : Prop :=
  Action.SettlesIn (World.Quiet tenant t online) act r

/-- In a quiet session, an action comes to an outcome, and the session stays quiet. -/
abbrev TxAction.Settles (tenant : Tenant) (t : Tables) (online : Bool) (body : TxAction α)
    (r : Except Fault α) : Prop :=
  TxAction.SettlesIn (World.Quiet tenant t online) body r

namespace TxAction

/-- Two sides that are run at the same time come to their outcomes, and the time is that of the
slower one. -/
theorem alongside_apply (first : TxAction α) (second : TxAction β) (scope : Scope) (s : Session) :
    let a := first scope s
    let b := second scope ((finalState a).at s.world.clock)
    alongside first second scope s = .ok (outcomeOf a, outcomeOf b)
      ((finalState b).at (max (finalState a).world.clock (finalState b).world.clock)) := by
  unfold alongside
  cases first scope s with
  | ok a u =>
      dsimp only [outcomeOf, finalState, Session.at]
      cases second scope ⟨{ u.world with clock := s.world.clock }, u.tx⟩ <;> rfl
  | error f u =>
      dsimp only [outcomeOf, finalState, Session.at]
      cases second scope ⟨{ u.world with clock := s.world.clock }, u.tx⟩ <;> rfl

/-- What is run at the same time comes on either side to what it comes to on its own. -/
theorem Settles.alongside {first : TxAction α} {second : TxAction β} {left : Except Fault α}
    {right : Except Fault β} (hfirst : Settles tenant t online first left)
    (hsecond : Settles tenant t online second right) :
    Settles tenant t online (TxAction.alongside first second) (.ok (left, right)) := by
  intro scope s hs
  have hleft := hfirst scope s hs
  have hright := hsecond scope _ (Session.quiet_at hleft.quiet s.world.clock)
  rw [alongside_apply]
  refine ⟨Session.quiet_at hright.quiet _, Nat.le_trans hleft.later (Nat.le_max_left _ _), ?_⟩
  intro hlive
  rw [hleft.outcome (Scope.check_of_le hlive (Nat.le_max_left _ _)),
    hright.outcome (Scope.check_of_le hlive (Nat.le_max_right _ _))]
  rfl

end TxAction
end SalientGraph
