import SalientGraph.Proofs.ConfinedEngine
import SalientGraph.Proofs.Transacting

/-!
# What is still while a transaction is open

Until it commits, a transaction shows nowhere but in the session that it is open in: the
committed rows stay as they are, nobody is told anything, and the permits are in the
same hands. And what reads only has nothing to commit. So a transaction changes nothing
at all unless it is for writing and is answered, and then it commits just what its
session has seen last.
-/

namespace SalientGraph

/-- Nothing has changed that others could notice, except for what others themselves commit. -/
structure World.Still (v w : World) : Prop where
  conditions : w.conditions = v.conditions
  wall : w.wall = v.wall
  announced : w.announced = v.announced
  holder : ∀ tenant, w.guard.holder? tenant = v.guard.holder? tenant
  tables : v.conditions.others = [] → w.store.tables = v.store.tables
  commits : v.conditions.others = [] → w.store.commits = v.store.commits

theorem World.Still.refl (w : World) : w.Still w :=
  ⟨rfl, rfl, rfl, fun _ => rfl, fun _ => rfl, fun _ => rfl⟩

theorem World.Still.trans {u v w : World} (h : u.Still v) (h' : v.Still w) : u.Still w := by
  have halone : u.conditions.others = [] → v.conditions.others = [] := by
    intro hu
    rw [h.conditions, hu]
  exact ⟨h'.conditions.trans h.conditions, h'.wall.trans h.wall, h'.announced.trans h.announced,
    fun tenant => (h'.holder tenant).trans (h.holder tenant),
    fun hu => (h'.tables (halone hu)).trans (h.tables hu),
    fun hu => (h'.commits (halone hu)).trans (h.commits hu)⟩

/-- The world is still, and a transaction for reading is as it was. -/
structure Session.Still (s t : Session) : Prop where
  world : s.world.Still t.world
  access : t.tx.access = s.tx.access
  unwritten : s.tx.access = .readOnly → t.tx = s.tx

theorem Session.Still.refl (s : Session) : s.Still s :=
  ⟨.refl s.world, rfl, fun _ => rfl⟩

theorem Session.Still.trans {s t u : Session} (h : s.Still t) (h' : t.Still u) : s.Still u := by
  refine ⟨h.world.trans h'.world, h'.access.trans h.access, ?_⟩
  intro hs
  rw [h'.unwritten (h.access.trans hs), h.unwritten hs]

def World.stillness : Discipline Empty World :=
  .ofFrame World.Still World.Still.refl World.Still.trans

def Session.stillness : Discipline Empty Session :=
  .ofFrame Session.Still Session.Still.refl Session.Still.trans

/-! ## Acting on a world -/

namespace Action

variable {α : Type}

theorem still_advance (w : World) (time : Nat) : w.Still (w.advance time) :=
  ⟨rfl, rfl, rfl, fun _ => Guard.holder?_elapse _ _ _ _, fun _ => rfl, fun _ => rfl⟩

theorem still_check : World.stillness.Obeys check := by
  apply Discipline.Obeys.of_keeps
  intro scope w
  unfold check
  cases scope.check w.clock with
  | ok _ => exact .refl w
  | error f => exact .refl w

theorem still_wait (duration : Nat) : World.stillness.Obeys (wait duration) := by
  apply Discipline.Obeys.of_keeps
  intro scope w
  unfold wait
  obtain ⟨outcome, time⟩ := scope.wait w.clock duration
  cases outcome with
  | ok _ => exact still_advance w time
  | error f => exact still_advance w time

/-- Others may commit with a request, and it may fail. -/
theorem still_request (r : Request) : World.stillness.Obeys (request r) := by
  apply Discipline.Obeys.of_keeps
  intro scope w
  rw [request_apply]
  have hserved : w.Still
      { w with served := w.served + 1, store := w.conditions.meanwhile w.served w.store } := by
    refine ⟨rfl, rfl, rfl, fun _ => rfl, ?_, ?_⟩
    · intro halone
      rw [Conditions.meanwhile_of_others_eq_nil halone]
    · intro halone
      rw [Conditions.meanwhile_of_others_eq_nil halone]
  apply hserved.trans
  apply World.stillness.keeps_bind ((still_wait _).keeps scope _)
  intro _ u _
  cases w.conditions.failure w.served r with
  | some reason => exact World.Still.refl u
  | none => exact World.Still.refl u

theorem still_draw : World.stillness.Obeys draw :=
  .of_keeps fun _ _ => ⟨rfl, rfl, rfl, fun _ => rfl, fun _ => rfl, fun _ => rfl⟩

theorem still_countExpansion : World.stillness.Obeys countExpansion :=
  .of_keeps fun _ _ => ⟨rfl, rfl, rfl, fun _ => rfl, fun _ => rfl, fun _ => rfl⟩

theorem still_begin (access : Access) : World.stillness.Obeys (begin access) :=
  (still_request .begin).bind fun _ =>
    .of_keeps fun _ _ => ⟨rfl, rfl, rfl, fun _ => rfl, fun _ => rfl, fun _ => rfl⟩

theorem still_rollback : World.stillness.Obeys (outcome (uninterrupted rollback)) := by
  rw [outcome_eq_attempt]
  apply Discipline.Obeys.attempt
  exact .of_keeps fun _ w => (still_request .rollback).keeps .unbounded w

end Action

/-! ## Acting in a transaction -/

namespace TxAction

variable {α : Type} {tenant : Tenant}

theorem still_inTransaction {act : Action α} (h : World.stillness.Obeys act) :
    Session.stillness.Obeys (Action.inTransaction act) := by
  apply Discipline.Obeys.of_keeps
  intro scope s
  have hrun := h.keeps scope s.world
  unfold Action.inTransaction
  cases hs : act scope s.world with
  | ok a w =>
      rw [hs] at hrun
      exact ⟨hrun, rfl, fun _ => rfl⟩
  | error f w =>
      rw [hs] at hrun
      exact ⟨hrun, rfl, fun _ => rfl⟩

/-- What is staged, is staged in a transaction for writing, and shows nowhere else. -/
theorem still_writing (r : Request) {w : Write} {form : α → Write.Answer}
    {write : Store → Transaction → Except Fault (α × Transaction)} (hown : Own tenant write)
    (hwrite : w.StagedBy tenant form write) : Session.stillness.Obeys (writing r write) := by
  apply (still_inTransaction (Action.still_request r)).bind
  intro _
  apply Discipline.Obeys.of_keeps
  intro scope s
  unfold stage
  cases hrun : write s.world.store s.tx with
  | error f => exact Session.Still.refl s
  | ok x =>
      have hwritable := Write.isWritable_of_stage (hwrite.stage_eq_ok hrun)
      obtain ⟨answer, staged, htx⟩ := hown
      obtain ⟨tx, hrun', haccess, -⟩ := htx s.world.store s.tx hwritable
      rw [hrun] at hrun'
      cases hrun'
      refine ⟨World.Still.refl _, haccess, ?_⟩
      intro hreading
      rw [hreading] at hwritable
      contradiction

/-- Nothing of all that is done in a transaction shows before it commits. -/
theorem editable_stillness (tenant : Tenant) :
    Editable tenant World.stillness Session.stillness where
  check := Action.still_check
  wait := Action.still_wait
  request := Action.still_request
  draw := Action.still_draw
  hasFullText := .of_keeps fun _ w => World.Still.refl w
  vectorOnline := .of_keeps fun _ w => World.Still.refl w
  countExpansion := Action.still_countExpansion
  inTransaction := still_inTransaction
  view := .of_keeps fun _ s => Session.Still.refl s
  clock := .of_keeps fun _ s => Session.Still.refl s
  setClock _ := .of_keeps fun _ _ =>
    ⟨⟨rfl, rfl, rfl, fun _ => rfl, fun _ => rfl, fun _ => rfl⟩, rfl, fun _ => rfl⟩
  now := .of_keeps fun _ w => World.Still.refl w
  putRow row := still_writing _ (own_putNode row) (Write.stagedBy_putNode tenant row)
  deleteRow id := still_writing (w := .deleteNode id) _
    (own_of_node id (·.insert id .delete) fun _ _ => rfl) fun _ _ => rfl
  updateRow id u := still_writing (w := .updateNode id u) _
    (own_of_node id (·.stageUpdate id u) fun _ _ => rfl) fun _ _ => rfl
  putEdgeRow row := still_writing _ (own_putEdge row) (Write.stagedBy_putEdge tenant row)
  deleteEdgeRow key := still_writing (w := .deleteEdge key) _
    (own_of_edge key (·.insert key .delete) fun _ _ => rfl) fun _ _ => rfl
  updateEdgeRow key u := still_writing (w := .updateEdge key u) _
    (own_of_edge key (·.stageUpdate key u) fun _ _ => rfl) fun _ _ => rfl
  deleteEdgesTouching id := still_writing (w := .deleteEdgesTouching id) _
    (own_deleteEdgesTouching id) fun _ _ => rfl

end TxAction

/-! ## A transaction of its own -/

/-- Nothing has changed that others could notice but the committed graphs and the events. -/
structure World.Becomes (v : World) (graphs : Tenant → Tables) (events : List ChangeEvent)
    (w : World) : Prop where
  conditions : w.conditions = v.conditions
  wall : w.wall = v.wall
  announced : w.announced = v.announced ++ events
  holder : ∀ tenant, w.guard.holder? tenant = v.guard.holder? tenant
  tables : ∀ tenant, w.store.tablesOf tenant = graphs tenant
  wellKeyed : w.store.WellKeyed

namespace World

theorem Still.tablesOf_eq {v w : World} (h : v.Still w) (halone : v.conditions.others = [])
    (tenant : Tenant) : w.store.tablesOf tenant = v.store.tablesOf tenant := by
  rw [Store.tablesOf, h.tables halone]
  rfl

theorem Becomes.announce {v w : World} {graphs : Tenant → Tables} {events more : List ChangeEvent}
    (h : v.Becomes graphs events w) :
    v.Becomes graphs (events ++ more) { w with announced := w.announced ++ more } := by
  refine ⟨h.conditions, h.wall, ?_, h.holder, h.tables, h.wellKeyed⟩
  rw [h.announced, List.append_assoc]

end World

namespace Action

variable {α : Type} {access : Access} {body : TxAction α}

/-- A session in which a transaction has just been begun, and nothing has been staged. -/
structure Begun (access : Access) (w : World) (s : Session) : Prop where
  still : w.Still s.world
  access : s.tx.access = access
  changes : s.tx.changes = ∅

theorem begun_of_begin {scope : Scope} {w v : World} {tx : Transaction}
    (h : begin access scope w = .ok tx v) : Begun access w ⟨v, tx⟩ := by
  have hstill := (still_begin access).keeps scope w
  rw [h] at hstill
  obtain ⟨_, u, _, hbegun⟩ := exists_of_bind_eq_ok h
  cases hbegun
  exact ⟨hstill, rfl, rfl⟩

/-- A transaction that is given up leaves the world still. -/
theorem settle_of_error (tx : Transaction) (f : Fault) (scope : Scope) (w : World) :
    ∃ v, (settle tx (.error f) : Action α) scope w = .error f v ∧ w.Still v := by
  have hstill := still_rollback.keeps scope w
  cases hrollback : outcome (uninterrupted rollback) scope w with
  | ok r v =>
      rw [hrollback] at hstill
      exact ⟨v, bind_of_ok hrollback, hstill⟩
  | error g v =>
      unfold outcome at hrollback
      split at hrollback
      · contradiction
      · contradiction

/-- A transaction is committed in the end, unless the request for it fails. -/
theorem settle_of_ok (tx : Transaction) (a : α) (scope : Scope) (w : World) :
    (∃ f v, settle tx (.ok a) scope w = .error f v ∧ w.Still v) ∨
      ∃ v, w.Still v ∧ settle tx (.ok a) scope w = .ok a { v with store := v.store.commit tx } := by
  have hstill := (still_request .commit).keeps .unbounded w
  cases hrequest : request .commit .unbounded w with
  | error f v =>
      rw [hrequest] at hstill
      have hcommit : uninterrupted (commit tx) scope w = .error f v := bind_of_error hrequest
      exact .inl ⟨f, v, bind_of_error hcommit, hstill⟩
  | ok _ v =>
      rw [hrequest] at hstill
      have hcommit : uninterrupted (commit tx) scope w =
          .ok () { v with store := v.store.commit tx } := bind_of_ok hrequest
      exact .inr ⟨v, hstill, bind_of_ok hcommit⟩

/-- A transaction that fails leaves the world still. One that is answered has run its session and
commits what the session has staged. -/
theorem transact_cases (hbody : Session.stillness.Obeys body) (scope : Scope) (w : World) :
    (∃ f v, transact access body scope w = .error f v ∧ w.Still v) ∨
      ∃ a s t u, Begun access w s ∧ body scope s = .ok a t ∧ t.world.Still u ∧
        transact access body scope w = .ok a { u with store := u.store.commit t.tx } := by
  have hchecked := still_check.keeps scope w
  cases hcheck : check scope w with
  | error f v =>
      rw [hcheck] at hchecked
      exact .inl ⟨f, v, bind_of_error hcheck, hchecked⟩
  | ok _ checked =>
      rw [hcheck] at hchecked
      have hstarted := (still_begin access).keeps scope checked
      cases hbegin : begin access scope checked with
      | error f v =>
          rw [hbegin] at hstarted
          exact .inl ⟨f, v, (bind_of_ok hcheck).trans (bind_of_error hbegin),
            hchecked.trans hstarted⟩
      | ok tx opened =>
          have hbegun := begun_of_begin hbegin
          have hopened : w.Still opened := hchecked.trans hbegun.still
          have hrun := hbody.keeps scope ⟨opened, tx⟩
          unfold transact
          rw [bind_of_ok hcheck, bind_of_ok hbegin]
          cases hs : body scope ⟨opened, tx⟩ with
          | error f t =>
              rw [hs] at hrun
              obtain ⟨v, hsettle, hv⟩ := settle_of_error t.tx f scope t.world
              exact .inl ⟨f, v, (bind_of_ok (session_of_error hs)).trans hsettle,
                (hopened.trans hrun.world).trans hv⟩
          | ok a t =>
              rw [hs] at hrun
              have hsession := session_of_ok hs
              rcases settle_of_ok t.tx a scope t.world with ⟨f, v, hsettle, hv⟩ | ⟨u, hu, hsettle⟩
              · exact .inl ⟨f, v, (bind_of_ok hsession).trans hsettle,
                  (hopened.trans hrun.world).trans hv⟩
              · exact .inr ⟨a, ⟨opened, tx⟩, t, u, ⟨hopened, hbegun.access, hbegun.changes⟩, hs, hu,
                  (bind_of_ok hsession).trans hsettle⟩

/-- What only reads has nothing to commit. -/
theorem still_transact_readOnly (hbody : Session.stillness.Obeys body) :
    World.stillness.Obeys (transact .readOnly body) := by
  apply Discipline.Obeys.of_keeps
  intro scope w
  rcases transact_cases hbody scope w with ⟨f, v, hrun, hv⟩ | ⟨a, s, t, u, hbegun, hs, hu, hrun⟩
  · rw [hrun]
    exact hv
  · have hkept := hbody.keeps scope s
    rw [hs] at hkept
    have htx : t.tx = s.tx := hkept.unwritten hbegun.access
    have hclean : t.tx.isClean = true := by
      rw [htx]
      simp [Transaction.isClean, hbegun.changes]
    rw [hrun, Store.commit_of_isClean hclean]
    exact (hbegun.still.trans hkept.world).trans hu

end Action
end SalientGraph
