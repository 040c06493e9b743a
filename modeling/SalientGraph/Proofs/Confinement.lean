import SalientGraph.Proofs.Holders
import SalientGraph.Proofs.Editing
import SalientGraph.Proofs.Store.Transactions
import SalientGraph.Proofs.Transacting

/-!
# What is confined to a tenant

Worlds are alike to a tenant if it finds the same graph in them, the same clocks and the
same store otherwise; the graphs of others, the numbers of transactions and permits and
the events announced before may differ. What is confined to a tenant behaves alike in
such worlds and changes nothing that is another tenant's.
-/

namespace SalientGraph

/-- What two runs may differ in: the events announced before, and the number of the permit. -/
structure Background where
  announced : List ChangeEvent
  holder : Option Nat

/-- Worlds alike to a tenant, in front of two backgrounds. -/
structure World.Alike (tenant : Tenant) (b : Background × Background) (v w : World) : Prop where
  tables : v.store.tablesOf tenant = w.store.tablesOf tenant
  vectorOnline : v.store.vectorOnline = w.store.vectorOnline
  conditions : v.conditions = w.conditions
  alone : v.conditions.others = []
  served : v.served = w.served
  clock : v.clock = w.clock
  wall : v.wall = w.wall
  draws : v.draws = w.draws
  announced : ∃ new, v.announced = b.1.announced ++ new ∧ w.announced = b.2.announced ++ new
  left : v.guard.holder? tenant = b.1.holder
  right : w.guard.holder? tenant = b.2.holder
  held : b.1.holder.isSome = b.2.holder.isSome

/-- Nothing but what is the tenant's own has changed, unless others have committed meanwhile. -/
structure World.Frame (tenant : Tenant) (v w : World) : Prop where
  conditions : w.conditions = v.conditions
  tables : v.conditions.others = [] →
    ∀ other, other ≠ tenant → w.store.tablesOf other = v.store.tablesOf other
  vectorOnline : v.conditions.others = [] → w.store.vectorOnline = v.store.vectorOnline
  holder : ∀ other, other ≠ tenant → w.guard.holder? other = v.guard.holder? other

/-- Sessions alike to a tenant: their worlds are, and the same is staged for it. -/
structure Session.Alike (tenant : Tenant) (access : Access) (b : Background × Background)
    (s t : Session) : Prop where
  world : s.world.Alike tenant b t.world
  access : s.tx.access = access ∧ t.tx.access = access
  changes : s.tx.changesOf tenant = t.tx.changesOf tenant

/-- Nothing has changed or been staged but what is the tenant's own. -/
structure Session.Frame (tenant : Tenant) (access : Access) (s t : Session) : Prop where
  world : s.world.Frame tenant t.world
  kept : s.tx.access = access → t.tx.access = access
  changes : s.tx.access = access →
    ∀ other, other ≠ tenant → t.tx.changesOf other = s.tx.changesOf other

theorem World.Frame.refl (tenant : Tenant) (w : World) : w.Frame tenant w :=
  ⟨rfl, fun _ _ _ => rfl, fun _ => rfl, fun _ _ => rfl⟩

theorem World.Frame.trans {tenant : Tenant} {u v w : World} (h : u.Frame tenant v)
    (h' : v.Frame tenant w) : u.Frame tenant w := by
  refine ⟨h'.conditions.trans h.conditions, ?_, ?_, ?_⟩
  · intro hu other ho
    have hv : v.conditions.others = [] := by rw [h.conditions, hu]
    exact (h'.tables hv other ho).trans (h.tables hu other ho)
  · intro hu
    have hv : v.conditions.others = [] := by rw [h.conditions, hu]
    exact (h'.vectorOnline hv).trans (h.vectorOnline hu)
  · exact fun other ho => (h'.holder other ho).trans (h.holder other ho)

theorem Session.Frame.refl (tenant : Tenant) (access : Access) (s : Session) :
    s.Frame tenant access s :=
  ⟨.refl tenant s.world, id, fun _ _ _ => rfl⟩

theorem Session.Frame.trans {tenant : Tenant} {access : Access} {s t u : Session}
    (h : s.Frame tenant access t) (h' : t.Frame tenant access u) : s.Frame tenant access u :=
  ⟨h.world.trans h'.world, fun hs => h'.kept (h.kept hs), fun hs other ho =>
    (h'.changes (h.kept hs) other ho).trans (h.changes hs other ho)⟩

/-- The discipline of what acts on a world for a tenant. -/
def World.confinement (tenant : Tenant) : Discipline (Background × Background) World where
  alike := World.Alike tenant
  frame := World.Frame tenant
  refl := World.Frame.refl tenant
  trans := World.Frame.trans

/-- The discipline of what acts in a transaction for a tenant. -/
def Session.confinement (tenant : Tenant) (access : Access) :
    Discipline (Background × Background) Session where
  alike := Session.Alike tenant access
  frame := Session.Frame tenant access
  refl := Session.Frame.refl tenant access
  trans := Session.Frame.trans

namespace Action

variable {α : Type}

/-- The action concerns one tenant only. -/
def Confined (tenant : Tenant) (act : Action α) : Prop :=
  (World.confinement tenant).Obeys act

end Action

namespace TxAction

variable {α : Type}

/-- Within a transaction of the given access, the action concerns one tenant only. -/
def Confined (tenant : Tenant) (access : Access) (act : TxAction α) : Prop :=
  (Session.confinement tenant access).Obeys act

end TxAction

/-! ## Acting on a world -/

namespace World

variable {tenant : Tenant} {b : Background × Background} {v w : World}

theorem Alike.advance (h : v.Alike tenant b w) (time : Nat) :
    (v.advance time).Alike tenant b (w.advance time) :=
  { h with
    clock := rfl
    left := (Guard.holder?_elapse _ _ _ _).trans h.left
    right := (Guard.holder?_elapse _ _ _ _).trans h.right }

theorem frame_advance (tenant : Tenant) (w : World) (time : Nat) :
    w.Frame tenant (w.advance time) :=
  ⟨rfl, fun _ _ _ => rfl, fun _ => rfl, fun _ _ => Guard.holder?_elapse _ _ _ _⟩

end World

namespace Action

variable {α β : Type} {tenant : Tenant}

theorem confined_check : Confined tenant check where
  agree b scope {v w} h := by
    unfold check
    rw [h.clock]
    cases scope.check w.clock with
    | ok _ => exact ⟨rfl, h⟩
    | error f => exact ⟨rfl, h⟩
  keeps scope w := by
    unfold check
    cases scope.check w.clock with
    | ok _ => exact World.Frame.refl tenant w
    | error f => exact World.Frame.refl tenant w

theorem confined_wait (duration : Nat) : Confined tenant (wait duration) where
  agree b scope {v w} h := by
    unfold wait
    rw [h.clock]
    obtain ⟨outcome, time⟩ := scope.wait w.clock duration
    cases outcome with
    | ok _ => exact ⟨rfl, h.advance time⟩
    | error f => exact ⟨rfl, h.advance time⟩
  keeps scope w := by
    unfold wait
    obtain ⟨outcome, time⟩ := scope.wait w.clock duration
    cases outcome with
    | ok _ => exact World.frame_advance tenant w time
    | error f => exact World.frame_advance tenant w time

theorem confined_now : Confined tenant now where
  agree b scope {v w} h := by
    refine ⟨?_, h⟩
    rw [h.wall, h.clock]
  keeps _ w := World.Frame.refl tenant w

theorem confined_draw : Confined tenant draw where
  agree _ _ {_ _} h := ⟨h.draws, { h with draws := congrArg (· + 1) h.draws }⟩
  keeps _ _ := ⟨rfl, fun _ _ _ => rfl, fun _ => rfl, fun _ _ => rfl⟩

theorem confined_announce (event : ChangeEvent) : Confined tenant (announce event) where
  agree b scope {v w} h := by
    obtain ⟨new, hv, hw⟩ := h.announced
    refine ⟨rfl, { h with announced := ⟨new ++ [event], ?_, ?_⟩ }⟩
    · show v.announced ++ [event] = _
      rw [hv, List.append_assoc]
    · show w.announced ++ [event] = _
      rw [hw, List.append_assoc]
  keeps _ _ := ⟨rfl, fun _ _ _ => rfl, fun _ => rfl, fun _ _ => rfl⟩

theorem confined_hasFullText : Confined tenant hasFullText where
  agree _ _ {_ _} h := ⟨congrArg Conditions.fullText h.conditions, h⟩
  keeps _ w := World.Frame.refl tenant w

theorem confined_vectorOnline : Confined tenant vectorOnline where
  agree _ _ {_ _} h := ⟨h.vectorOnline, h⟩
  keeps _ w := World.Frame.refl tenant w

theorem confined_countExpansion : Confined tenant countExpansion where
  agree _ _ {_ _} h := ⟨rfl, { h with }⟩
  keeps _ _ := ⟨rfl, fun _ _ _ => rfl, fun _ => rfl, fun _ _ => rfl⟩

theorem confined_ofOutcome (outcome : Except Fault α) : Confined tenant (ofOutcome outcome) := by
  cases outcome with
  | ok a => exact .pure a
  | error f => exact .throw f

theorem Confined.within {act : Action α} (h : Confined tenant act)
    (change : Nat → Scope → Scope) : Confined tenant (within change act) where
  agree b scope {v w} hvw := by
    unfold Action.within
    rw [hvw.clock]
    exact h.agree b _ hvw
  keeps scope w := h.keeps _ w

theorem Confined.uninterrupted {act : Action α} (h : Confined tenant act) :
    Confined tenant (uninterrupted act) :=
  h.within _

theorem Confined.outcome {act : Action α} (h : Confined tenant act) :
    Confined tenant (outcome act) := by
  rw [outcome_eq_attempt]
  exact h.attempt

theorem confined_request (r : Request) : Confined tenant (request r) where
  agree b scope {v w} h := by
    have halone : w.conditions.others = [] := by
      rw [← h.conditions]
      exact h.alone
    rw [request_apply, request_apply, Conditions.meanwhile_of_others_eq_nil h.alone,
      Conditions.meanwhile_of_others_eq_nil halone, h.conditions, h.served]
    refine Discipline.Obeys.agree ?_ b scope { h with conditions := rfl, alone := halone, served := rfl }
    apply (confined_wait _).bind
    intro _
    cases w.conditions.failure w.served r with
    | some reason => exact .throw _
    | none => exact .pure ()
  keeps scope w := by
    -- others may commit with the request, so that tables are kept only if there are none
    rw [request_apply]
    have hserved : w.Frame tenant
        { w with served := w.served + 1, store := w.conditions.meanwhile w.served w.store } := by
      refine ⟨rfl, ?_, ?_, fun _ _ => rfl⟩
      · intro halone other _
        rw [Conditions.meanwhile_of_others_eq_nil halone]
      · intro halone
        rw [Conditions.meanwhile_of_others_eq_nil halone]
    apply hserved.trans
    apply (World.confinement tenant).keeps_bind ((confined_wait _).keeps scope _)
    intro _ u _
    cases w.conditions.failure w.served r with
    | some reason => exact World.Frame.refl tenant u
    | none => exact World.Frame.refl tenant u

end Action

/-! ## Acting in a transaction -/

namespace TxAction

variable {α β : Type} {tenant : Tenant} {access : Access}

/-- What is confined in the world is so in a transaction. -/
theorem confined_inTransaction {act : Action α} (h : Action.Confined tenant act) :
    Confined tenant access (Action.inTransaction act) where
  agree b scope {s t} hst := by
    unfold Action.inTransaction
    refine Discipline.Agree.elim (h.agree b scope hst.world) ?_ ?_
    · intro a a' v w ha hvw
      exact ⟨ha, hvw, hst.access, hst.changes⟩
    · intro f v w hvw
      exact ⟨rfl, hvw, hst.access, hst.changes⟩
  keeps scope s := by
    have hrun := h.keeps scope s.world
    unfold Action.inTransaction
    cases hs : act scope s.world with
    | ok a v =>
        rw [hs] at hrun
        exact ⟨hrun, id, fun _ _ _ => rfl⟩
    | error f v =>
        rw [hs] at hrun
        exact ⟨hrun, id, fun _ _ _ => rfl⟩

theorem confined_view : Confined tenant access (view tenant) where
  agree _ _ {s t} h := by
    refine ⟨?_, h⟩
    show View.mk (s.world.store.tablesOf tenant) (s.tx.changesOf tenant) = _
    rw [h.world.tables, h.changes]
    rfl
  keeps _ s := Session.Frame.refl tenant access s

/-- A write is the tenant's own if, in a writable transaction, its answer and what it stages for the
tenant depend on the graph of the tenant only, and it stages nothing for others. -/
def Own (tenant : Tenant) (write : Store → Transaction → Except Fault (α × Transaction)) : Prop :=
  ∃ (answer : View → α) (staged : View → Changes), ∀ (s : Store) (tx : Transaction),
    tx.access.isWritable = true → ∃ tx', write s tx = .ok (answer (s.view tx tenant), tx') ∧
      tx'.access = tx.access ∧ tx'.changesOf tenant = staged (s.view tx tenant) ∧
        ∀ other, other ≠ tenant → tx'.changesOf other = tx.changesOf other

theorem confined_stage {write : Store → Transaction → Except Fault (α × Transaction)}
    (h : Own tenant write) : Confined tenant .readWrite (stage write) := by
  obtain ⟨answer, staged, hwrite⟩ := h
  refine ⟨?_, ?_⟩
  · intro b scope s t hst
    have hs : s.tx.access.isWritable = true := by rw [hst.access.1]; rfl
    have ht : t.tx.access.isWritable = true := by rw [hst.access.2]; rfl
    obtain ⟨txs, hsw, hsa, hsc, -⟩ := hwrite s.world.store s.tx hs
    obtain ⟨txt, htw, hta, htc, -⟩ := hwrite t.world.store t.tx ht
    have hview : s.world.store.view s.tx tenant = t.world.store.view t.tx tenant := by
      show View.mk (s.world.store.tablesOf tenant) (s.tx.changesOf tenant) = _
      rw [hst.world.tables, hst.changes]
      rfl
    unfold stage
    rw [hsw, htw]
    -- the view is the same, so the answer and the staged changes are
    refine ⟨congrArg answer hview, hst.world, ⟨?_, ?_⟩, ?_⟩
    · exact hsa.trans hst.access.1
    · exact hta.trans hst.access.2
    · exact hsc.trans ((congrArg staged hview).trans htc.symm)
  · intro scope s
    unfold stage
    cases hrun : write s.world.store s.tx with
    | error f => exact Session.Frame.refl tenant .readWrite s
    | ok r =>
        obtain ⟨a, tx⟩ := r
        refine ⟨World.Frame.refl tenant s.world, ?_, ?_⟩
        · intro hs
          obtain ⟨tx', hw, ha, -, -⟩ := hwrite s.world.store s.tx (by rw [hs]; rfl)
          rw [hrun] at hw
          cases hw
          exact ha.trans hs
        · intro hs other hother
          obtain ⟨tx', hw, -, -, ho⟩ := hwrite s.world.store s.tx (by rw [hs]; rfl)
          rw [hrun] at hw
          cases hw
          exact ho other hother

theorem confined_writing (r : Request)
    {write : Store → Transaction → Except Fault (α × Transaction)} (h : Own tenant write) :
    Confined tenant .readWrite (writing r write) :=
  (confined_inTransaction (Action.confined_request r)).bind fun _ => confined_stage h

/-! ### Writes -/

theorem own_putNode (row : SealedNode) :
    Own tenant fun _ tx => return ((), ← Store.putNode tx tenant row) := by
  refine ⟨fun _ => (),
    fun v => { v.changes with nodes := v.changes.nodes.insert row.id (.put row) }, ?_⟩
  intro s tx hw
  refine ⟨tx.stageNode tenant row.id (.put row), ?_, rfl, ?_, ?_⟩
  · simp only [Store.putNode, Transaction.checkWritable_eq_ok hw]
    rfl
  · exact Transaction.changesOf_mapNodes_self tx tenant _
  · exact fun other h => Transaction.changesOf_mapNodes_of_ne tx _ h

theorem own_putEdge (row : SealedEdge) :
    Own tenant fun _ tx => return ((), ← Store.putEdge tx tenant row) := by
  refine ⟨fun _ => (),
    fun v => { v.changes with edges := v.changes.edges.insert row.key (.put row) }, ?_⟩
  intro s tx hw
  refine ⟨tx.stageEdge tenant row.key (.put row), ?_, rfl, ?_, ?_⟩
  · simp only [Store.putEdge, Transaction.checkWritable_eq_ok hw]
    rfl
  · exact Transaction.changesOf_mapEdges_self tx tenant _
  · exact fun other h => Transaction.changesOf_mapEdges_of_ne tx _ h

/-- A write to a node that is there is the tenant's own, if one to a node that is not there stages
nothing. -/
theorem own_of_node {write : Store → Transaction → Except Fault (Bool × Transaction)} (id : String)
    (f : Staging String SealedNode compare → Staging String SealedNode compare)
    (h : ∀ s tx, write s tx = (do
      tx.checkWritable
      if ((s.view tx tenant).node? id).isSome then return (true, tx.mapNodes tenant f)
      else return (false, tx))) : Own tenant write := by
  refine ⟨fun v => (v.node? id).isSome, fun v =>
    if (v.node? id).isSome then { v.changes with nodes := f v.changes.nodes } else v.changes, ?_⟩
  intro s tx hw
  rw [h, Transaction.checkWritable_eq_ok hw]
  by_cases hnode : ((s.view tx tenant).node? id).isSome = true
  · refine ⟨tx.mapNodes tenant f, ?_, rfl, ?_, ?_⟩
    · simp only [hnode]
      rfl
    · simp only [hnode, if_true]
      exact Transaction.changesOf_mapNodes_self tx tenant f
    · exact fun other ho => Transaction.changesOf_mapNodes_of_ne tx f ho
  · rw [Bool.not_eq_true] at hnode
    refine ⟨tx, ?_, rfl, ?_, fun _ _ => rfl⟩
    · simp only [hnode]
      rfl
    · simp only [hnode]
      rfl

/-- A write to an edge that is there is the tenant's own, if one to an edge that is not there stages
nothing. -/
theorem own_of_edge {write : Store → Transaction → Except Fault (Bool × Transaction)}
    (key : EdgeKey)
    (f : Staging EdgeKey SealedEdge EdgeKey.order → Staging EdgeKey SealedEdge EdgeKey.order)
    (h : ∀ s tx, write s tx = (do
      tx.checkWritable
      if ((s.view tx tenant).edge? key).isSome then return (true, tx.mapEdges tenant f)
      else return (false, tx))) : Own tenant write := by
  refine ⟨fun v => (v.edge? key).isSome, fun v =>
    if (v.edge? key).isSome then { v.changes with edges := f v.changes.edges } else v.changes, ?_⟩
  intro s tx hw
  rw [h, Transaction.checkWritable_eq_ok hw]
  by_cases hedge : ((s.view tx tenant).edge? key).isSome = true
  · refine ⟨tx.mapEdges tenant f, ?_, rfl, ?_, ?_⟩
    · simp only [hedge]
      rfl
    · simp only [hedge, if_true]
      exact Transaction.changesOf_mapEdges_self tx tenant f
    · exact fun other ho => Transaction.changesOf_mapEdges_of_ne tx f ho
  · rw [Bool.not_eq_true] at hedge
    refine ⟨tx, ?_, rfl, ?_, fun _ _ => rfl⟩
    · simp only [hedge]
      rfl
    · simp only [hedge]
      rfl

theorem own_deleteEdgesTouching (id : String) :
    Own tenant fun s tx => s.deleteEdgesTouching tx tenant id := by
  let doomed (v : View) : List SealedEdge := v.edges.filter (·.touches id)
  refine ⟨fun v => (doomed v).length, fun v => { v.changes with
    edges := ((doomed v).map Edge.key).foldl (fun staging k => staging.insert k .delete)
      v.changes.edges }, ?_⟩
  intro s tx hw
  obtain ⟨haccess, hothers⟩ := Write.foldl_stageEdge_others tenant (doomed (s.view tx tenant)) tx
  refine ⟨_, ?_, haccess, Write.changesOf_foldl_stageEdge _ tx, hothers⟩
  simp only [Store.deleteEdgesTouching, Transaction.checkWritable_eq_ok hw]
  rfl

theorem confined_putNode (row : SealedNode) : Confined tenant .readWrite (putNode tenant row) :=
  confined_writing _ (own_putNode row)

theorem confined_putEdge (row : SealedEdge) : Confined tenant .readWrite (putEdge tenant row) :=
  confined_writing _ (own_putEdge row)

theorem confined_deleteNode (id : String) : Confined tenant .readWrite (deleteNode tenant id) :=
  confined_writing _ (own_of_node id (·.insert id .delete) fun _ _ => rfl)

theorem confined_updateNode (id : String) (u : RelevanceUpdate) :
    Confined tenant .readWrite (updateNode tenant id u) :=
  confined_writing _ (own_of_node id (·.stageUpdate id u) fun _ _ => rfl)

theorem confined_deleteEdge (key : EdgeKey) :
    Confined tenant .readWrite (deleteEdge tenant key) :=
  confined_writing _ (own_of_edge key (·.insert key .delete) fun _ _ => rfl)

theorem confined_updateEdge (key : EdgeKey) (u : RelevanceUpdate) :
    Confined tenant .readWrite (updateEdge tenant key u) :=
  confined_writing _ (own_of_edge key (·.stageUpdate key u) fun _ _ => rfl)

theorem confined_deleteEdgesTouching (id : String) :
    Confined tenant .readWrite (deleteEdgesTouching tenant id) :=
  confined_writing _ (own_deleteEdgesTouching id)

theorem confined_clock : Confined tenant access clock where
  agree _ _ {_ _} h := ⟨h.world.clock, h⟩
  keeps _ s := Session.Frame.refl tenant access s

theorem confined_setClock (time : Nat) : Confined tenant access (setClock time) where
  agree _ _ {_ _} h := ⟨rfl, { h.world with clock := rfl }, h.access, h.changes⟩
  keeps _ _ := ⟨⟨rfl, fun _ _ _ => rfl, fun _ => rfl, fun _ _ => rfl⟩, id, fun _ _ _ => rfl⟩

/-- Whatever reads the graph of a tenant is confined to it. -/
theorem readable_confinement (tenant : Tenant) (access : Access) :
    Readable tenant (World.confinement tenant) (Session.confinement tenant access) where
  check := Action.confined_check
  wait := Action.confined_wait
  request := Action.confined_request
  draw := Action.confined_draw
  hasFullText := Action.confined_hasFullText
  vectorOnline := Action.confined_vectorOnline
  countExpansion := Action.confined_countExpansion
  inTransaction := confined_inTransaction
  view := confined_view
  clock := confined_clock
  setClock := confined_setClock

end TxAction

/-! ## A transaction of its own -/

namespace Action

variable {α : Type} {tenant : Tenant}

theorem vectorOnline_commit (s : Store) (tx : Transaction) :
    (s.commit tx).vectorOnline = s.vectorOnline := by
  unfold Store.commit
  split <;> rfl

/-- Transactions of the given access in which the same is staged for the tenant. -/
def SameTx (tenant : Tenant) (access : Access) (tx tx' : Transaction) : Prop :=
  (tx.access = access ∧ tx'.access = access) ∧ tx.changesOf tenant = tx'.changesOf tenant

/-- A transaction in which nothing is staged for others. -/
def OwnTx (tenant : Tenant) (tx : Transaction) : Prop :=
  ∀ other, other ≠ tenant → tx.changesOf other = {}

theorem agree_begin {b : Background × Background} (access : Access) (scope : Scope) {v w : World}
    (h : v.Alike tenant b w) : (World.confinement tenant).Agree b (SameTx tenant access)
      (begin access scope v) (begin access scope w) := by
  refine ((confined_request .begin).agree b scope h).bind ?_
  intro _ _ v w _ hvw
  exact ⟨⟨⟨rfl, rfl⟩, rfl⟩, { hvw with }⟩

theorem keeps_begin (access : Access) (scope : Scope) (w : World) :
    w.Frame tenant (finalState (begin access scope w)) := by
  apply (World.confinement tenant).keeps_bind ((confined_request .begin).keeps scope w)
  intro _ v _
  exact ⟨rfl, fun _ _ _ => rfl, fun _ => rfl, fun _ _ => rfl⟩

/-- What was just begun is of the given access, and has nothing staged. -/
theorem begin_eq_ok {access : Access} {scope : Scope} {w v : World} {tx : Transaction}
    (h : begin access scope w = .ok tx v) :
    tx.access = access ∧ ∀ tenant, tx.changesOf tenant = {} := by
  obtain ⟨_, u, _, hbegun⟩ := exists_of_bind_eq_ok h
  cases hbegun
  refine ⟨rfl, ?_⟩
  intro tenant
  simp [Store.begin, Transaction.changesOf]

variable {access : Access} {body : TxAction α}

theorem agree_session (hbody : TxAction.Confined tenant access body)
    {b : Background × Background} (scope : Scope) {tx tx' : Transaction}
    (htx : SameTx tenant access tx tx') {v w : World} (h : v.Alike tenant b w) :
    (World.confinement tenant).Agree b (fun x y => x.1 = y.1 ∧ SameTx tenant access x.2 y.2)
      (session tx body scope v) (session tx' body scope w) := by
  have hsessions : Session.Alike tenant access b ⟨v, tx⟩ ⟨w, tx'⟩ := ⟨h, htx.1, htx.2⟩
  unfold session
  -- a fault of the session is an answer here, as its transaction is still to be settled
  refine Discipline.Agree.elim (hbody.agree b scope hsessions) ?_ ?_
  · rintro a _ s t rfl hst
    exact ⟨⟨rfl, hst.access, hst.changes⟩, hst.world⟩
  · intro f s t hst
    exact ⟨⟨rfl, hst.access, hst.changes⟩, hst.world⟩

/-- A session stages for its tenant only. -/
theorem keeps_session (hbody : TxAction.Confined tenant access body) (scope : Scope)
    {tx : Transaction} (haccess : tx.access = access) (hown : OwnTx tenant tx) (w : World) :
    ∃ outcome tx', ∃ w', session tx body scope w = .ok (outcome, tx') w' ∧
      w.Frame tenant w' ∧ OwnTx tenant tx' := by
  have hrun := hbody.keeps scope ⟨w, tx⟩
  unfold session
  cases hw : body scope ⟨w, tx⟩ with
  | ok a s =>
      rw [hw] at hrun
      refine ⟨_, _, _, rfl, hrun.world, ?_⟩
      exact fun other ho => (hrun.changes haccess other ho).trans (hown other ho)
  | error f s =>
      rw [hw] at hrun
      refine ⟨_, _, _, rfl, hrun.world, ?_⟩
      exact fun other ho => (hrun.changes haccess other ho).trans (hown other ho)

theorem agree_settle {b : Background × Background} (scope : Scope) {tx tx' : Transaction}
    (htx : SameTx tenant access tx tx') (outcome : Except Fault α) {v w : World}
    (h : v.Alike tenant b w) : (World.confinement tenant).Agree b Eq
      (settle tx outcome scope v) (settle tx' outcome scope w) := by
  cases outcome with
  | ok a =>
      have hcommit : (World.confinement tenant).Agree b Eq (uninterrupted (commit tx) scope v)
          (uninterrupted (commit tx') scope w) := by
        refine ((confined_request .commit).agree b Scope.unbounded h).bind ?_
        intro _ _ v w _ hvw
        refine ⟨rfl, { hvw with tables := ?_, vectorOnline := ?_ }⟩
        · show (v.store.commit tx).tablesOf tenant = (w.store.commit tx').tablesOf tenant
          rw [Store.tablesOf_commit, Store.tablesOf_commit, hvw.tables, htx.2]
        · show (v.store.commit tx).vectorOnline = (w.store.commit tx').vectorOnline
          rw [vectorOnline_commit, vectorOnline_commit, hvw.vectorOnline]
      exact hcommit.bind fun _ hvw => ⟨rfl, hvw⟩
  | error f =>
      have hrollback : Confined tenant (outcome (uninterrupted rollback)) :=
        (Confined.uninterrupted (confined_request .rollback)).outcome
      exact (hrollback.agree b scope h).bind fun _ hvw => ⟨rfl, hvw⟩

theorem keeps_settle (scope : Scope) {tx : Transaction} (hown : OwnTx tenant tx)
    (outcome : Except Fault α) (w : World) :
    w.Frame tenant (finalState (settle tx outcome scope w)) := by
  cases outcome with
  | ok a =>
      have hcommit : w.Frame tenant (finalState (uninterrupted (commit tx) scope w)) := by
        apply (World.confinement tenant).keeps_bind
          ((confined_request .commit).keeps Scope.unbounded w)
        intro _ v _
        refine ⟨rfl, ?_, fun _ => vectorOnline_commit v.store tx, fun _ _ => rfl⟩
        intro _ other ho
        show (v.store.commit tx).tablesOf other = v.store.tablesOf other
        rw [Store.tablesOf_commit, hown other ho, Store.publish_empty]
      exact (World.confinement tenant).keeps_bind hcommit fun _ v _ => World.Frame.refl tenant v
  | error f =>
      have hrollback : Confined tenant (Action.outcome (uninterrupted rollback)) :=
        (Confined.uninterrupted (confined_request .rollback)).outcome
      exact (World.confinement tenant).keeps_bind (hrollback.keeps scope w)
        fun _ v _ => World.Frame.refl tenant v

/-- What is run in a transaction of its own is confined if it is so within the transaction. -/
theorem confined_transact (h : TxAction.Confined tenant access body) :
    Confined tenant (transact access body) where
  agree b scope {v w} hvw := by
    refine (confined_check.agree b scope hvw).bind ?_
    intro _ _ v w _ hvw
    refine (agree_begin access scope hvw).bind ?_
    intro tx tx' v w htx hvw
    refine (agree_session h scope htx hvw).bind ?_
    rintro ⟨outcome, tx⟩ ⟨_, tx'⟩ v w ⟨rfl, htx⟩ hvw
    exact agree_settle scope htx outcome hvw
  keeps scope w := by
    apply (World.confinement tenant).keeps_bind (confined_check.keeps scope w)
    intro _ w _
    apply (World.confinement tenant).keeps_bind (keeps_begin access scope w)
    intro tx w hbegin
    obtain ⟨haccess, hnothing⟩ := begin_eq_ok hbegin
    obtain ⟨outcome, tx', w', hsession, hframe, hown⟩ :=
      keeps_session h scope haccess (fun other _ => hnothing other) w
    apply (World.confinement tenant).keeps_bind
    · rw [hsession]
      exact hframe
    · intro r v hv
      rw [hsession] at hv
      cases hv
      exact keeps_settle scope hown outcome w'

end Action

end SalientGraph
