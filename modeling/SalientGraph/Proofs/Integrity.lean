import SalientGraph.Proofs.ConfinedEngine
import SalientGraph.Proofs.Contract
import SalientGraph.Proofs.Soundness
import SalientGraph.Proofs.Turns

/-!
# Referential integrity

The store itself lets an edge dangle. That none ever does is due to the checks of the
catalog and to the order of its writes, and holds as long as transactions come one after
another: in every committed graph and in everything that a transaction sees, whatever is
edited for whichever tenants, whatever fails, and however the transactions end.
-/

namespace SalientGraph

/-! ## What holds between two edits -/

/-- Under these conditions, nobody else uses the store and the committed graphs are sound. -/
structure World.Intact (c : Conditions) (w : World) : Prop where
  conditions : w.conditions = c
  alone : c.others = []
  committed : ∀ tenant, (w.store.tablesOf tenant).Sound

/-- The session is intact as well: whatever it sees is sound. -/
structure Session.Intact (c : Conditions) (access : Access) (s : Session) : Prop where
  world : s.world.Intact c
  access : s.tx.access = access
  seen : ∀ tenant, (s.graphs tenant).Sound

/-- The session is intact, and the graphs it sees are as described. -/
def Session.Shows (c : Conditions) (access : Access) (described : (Tenant → Tables) → Prop)
    (s : Session) : Prop :=
  s.Intact c access ∧ described s.graphs

variable {α β : Type} {c : Conditions} {access : Access} {tenant : Tenant}

namespace World

/-- What concerns no tenant leaves the conditions and all committed graphs as they were. -/
theorem unchanged_of_confined {act : Action α} (h : ∀ tenant, Action.Confined tenant act)
    (scope : Scope) {w : World} (halone : w.conditions.others = []) :
    (finalState (act scope w)).conditions = w.conditions ∧
      ∀ tenant, (finalState (act scope w)).store.tablesOf tenant = w.store.tablesOf tenant := by
  have hframe : ∀ tenant, w.Frame tenant (finalState (act scope w)) :=
    fun tenant => (h tenant).keeps scope w
  refine ⟨(hframe ⟨""⟩).conditions, ?_⟩
  intro tenant
  -- any other tenant will do to see that this one is not concerned
  by_cases htenant : tenant = ⟨""⟩
  · apply (hframe ⟨"other"⟩).tables halone
    rw [htenant]
    decide
  · exact (hframe ⟨""⟩).tables halone tenant htenant

/-- Nothing is unsound in an empty store. -/
theorem intact_of_empty {w : World} (hstore : w.store = {}) (halone : w.conditions.others = []) :
    w.Intact w.conditions := by
  refine ⟨rfl, halone, ?_⟩
  intro tenant
  rw [hstore]
  show (Std.ExtTreeMap.getD ∅ tenant {} : Tables).Sound
  rw [Std.ExtTreeMap.getD_empty]
  exact Tables.sound_empty

theorem Intact.of_unchanged {v w : World} (h : v.Intact c)
    (hconditions : w.conditions = v.conditions)
    (htables : ∀ tenant, w.store.tablesOf tenant = v.store.tablesOf tenant) : w.Intact c where
  conditions := hconditions.trans h.conditions
  alone := h.alone
  committed tenant := by
    rw [htables]
    exact h.committed tenant

end World

namespace Session

variable {described : (Tenant → Tables) → Prop}

theorem Shows.of_unchanged {s : Session} {w : World} (h : s.Shows c access described)
    (hconditions : w.conditions = s.world.conditions)
    (htables : ∀ tenant, w.store.tablesOf tenant = s.world.store.tablesOf tenant) :
    Shows c access described { s with world := w } := by
  have hgraphs : graphs { s with world := w } = s.graphs := by
    funext tenant
    show (View.mk (w.store.tablesOf tenant) (s.tx.changesOf tenant)).settled = _
    rw [htables]
    rfl
  refine ⟨⟨h.1.world.of_unchanged hconditions htables, h.1.access, ?_⟩, ?_⟩
  · rw [hgraphs]
    exact h.1.seen
  · rw [hgraphs]
    exact h.2

/-- What concerns no tenant leaves a session as it was. -/
theorem meets_inTransaction {act : Action α} (h : ∀ tenant, Action.Confined tenant act) :
    Meets (Action.inTransaction act) (Shows c access described)
      (fun _ => Shows c access described) (fun _ => Session.Intact c access) := by
  intro scope s hs
  have halone : s.world.conditions.others = [] := by
    rw [hs.1.world.conditions]
    exact hs.1.world.alone
  obtain ⟨hconditions, htables⟩ := World.unchanged_of_confined h scope halone
  have hkept := hs.of_unchanged hconditions htables
  unfold Action.inTransaction
  cases hrun : act scope s.world with
  | ok a w =>
      rw [hrun] at hkept
      exact hkept
  | error f w =>
      rw [hrun] at hkept
      exact hkept.1

/-- After an outcome has been passed on, it is known to be an answer. -/
theorem meets_ofOutcome (outcome : Except Fault α) :
    Meets (Action.inTransaction (Action.ofOutcome outcome)) (Shows c access described)
      (fun a s => outcome = .ok a ∧ s.Shows c access described)
      (fun _ => Session.Intact c access) := by
  intro scope s hs
  cases outcome with
  | ok a => exact ⟨rfl, hs⟩
  | error f => exact hs.1

theorem meets_reading (r : Request) (answer : View → α) :
    Meets (TxAction.reading r tenant answer) (Shows c access described)
      (fun a => Shows c access fun graphs =>
        described graphs ∧ ∃ v : View, v.settled = graphs tenant ∧ answer v = a)
      (fun _ => Session.Intact c access) := by
  apply (meets_inTransaction fun _ => Action.confined_request r).bind
  intro _ scope s hs
  exact ⟨hs.1, hs.2, s.view tenant, rfl, rfl⟩

theorem meets_hasNode (id : String) :
    Meets (TxAction.hasNode tenant id) (Shows c access described)
      (fun present => Shows c access fun graphs =>
        described graphs ∧ (graphs tenant).nodes[id]?.isSome = present)
      (fun _ => Session.Intact c access) := by
  apply (meets_reading .node (·.node? id)).bind
  intro row
  apply Meets.pure
  rintro s ⟨hs, hdescribed, v, hv, hrow⟩
  refine ⟨hs, hdescribed, ?_⟩
  rw [← hv, ← View.node?_eq_settled, hrow]

/-- A write that keeps the graph of its tenant sound keeps the session intact. -/
theorem meets_writing {r : Request} {write : Store → Transaction → Except Fault (α × Transaction)}
    (w : Write) (f : α → Write.Answer) {after : (Tenant → Tables) → Prop}
    (hwrite : ∀ store tx, w.stage store tx tenant = (write store tx).map fun r => (f r.1, r.2))
    (hkeeps : ∀ graphs : Tenant → Tables, (graphs tenant).Sound → described graphs →
      (w.applyTo (graphs tenant)).Sound ∧ after (w.applyAt tenant graphs)) :
    Meets (TxAction.writing r write) (Shows c access described) (fun _ => Shows c access after)
      (fun _ => Session.Intact c access) := by
  apply (meets_inTransaction fun _ => Action.confined_request r).bind
  intro _ scope s hs
  obtain ⟨⟨hworld, haccess, hseen⟩, hdescribed⟩ := hs
  unfold TxAction.stage
  cases hrun : write s.world.store s.tx with
  | error f => exact ⟨hworld, haccess, hseen⟩
  | ok result =>
      obtain ⟨a, tx⟩ := result
      have hstage : w.stage s.world.store s.tx tenant = .ok (f a, tx) := by
        rw [hwrite, hrun]
        rfl
      have hk : (s.view tenant).settled.WellKeyed := (hseen tenant).wellKeyed
      obtain ⟨tx', hstage', hstages⟩ := w.stage_eq_ok (Write.isWritable_of_stage hstage) hk
      have htx : tx' = tx := (Prod.mk.inj (Except.ok.inj (hstage'.symm.trans hstage))).2
      subst htx
      have hgraphs : graphs { s with tx := tx' } = w.applyAt tenant s.graphs :=
        funext (hstages.settled hk)
      obtain ⟨hsound, hafter⟩ := hkeeps s.graphs (hseen tenant) hdescribed
      refine ⟨⟨hworld, hstages.access.trans haccess, ?_⟩, ?_⟩
      · intro other
        rw [hgraphs, Write.applyAt]
        split
        · exact hsound
        · exact hseen other
      · rw [hgraphs]
        exact hafter

/-- A write of which nothing more is asked than that the graph stays sound. -/
theorem meets_keeping {r : Request} {write : Store → Transaction → Except Fault (α × Transaction)}
    (w : Write) (f : α → Write.Answer)
    (hwrite : ∀ store tx, w.stage store tx tenant = (write store tx).map fun r => (f r.1, r.2))
    (hkeeps : ∀ graphs : Tenant → Tables, (graphs tenant).Sound → described graphs →
      (w.applyTo (graphs tenant)).Sound) :
    Meets (TxAction.writing r write) (Shows c access described)
      (fun _ => Session.Intact c access) (fun _ => Session.Intact c access) := by
  have hmeets : Meets (TxAction.writing r write) (Shows c access described)
      (fun _ => Shows c access fun _ => True) (fun _ => Session.Intact c access) :=
    meets_writing w f hwrite fun graphs hsound hdescribed =>
      ⟨hkeeps graphs hsound hdescribed, trivial⟩
  exact hmeets.weaken (fun _ h => h) (fun _ _ h => h.1) fun _ _ h => h

end Session

/-! ## The catalog -/

namespace Engine

open Session (Shows meets_inTransaction meets_ofOutcome meets_hasNode meets_writing meets_keeping)

theorem isBlank_eq_false_of_checkNode {node : OpenNode} (h : checkNode node = .ok ()) :
    Text.isBlank node.id = false := by
  unfold checkNode at h
  split at h
  · contradiction
  · rename_i hblank
    simpa using hblank

theorem related_of_checkEdge {edge : OpenEdge} (h : checkEdge edge = .ok ()) :
    Text.isBlank edge.relation = false ∧ edge.weight.isFinite = true := by
  unfold checkEdge at h
  split at h
  · contradiction
  · rename_i hblank
    split at h
    · rename_i hfinite
      exact ⟨by simpa using hblank, hfinite⟩
    · contradiction

variable (e : Engine) {described : (Tenant → Tables) → Prop}

theorem meets_putNode (node : OpenNode) :
    Meets (e.putNode tenant node) (Shows c access described) (fun _ => Session.Intact c access)
      (fun _ => Session.Intact c access) := by
  apply (meets_ofOutcome (checkNode node)).bind
  intro _
  apply Meets.given
  intro hchecked
  apply (meets_inTransaction fun _ => Action.confined_now).bind
  intro now
  apply (meets_inTransaction fun _ => confined_sealPayload e tenant _).bind
  intro payload
  apply (meets_keeping (.putNode _) (fun _ => .done) (Write.stagedBy_putNode _ _) ?_).bind
  · intro _
    exact Meets.pure fun _ h => h
  · intro graphs hsound _
    apply hsound.putNode
    exact isBlank_eq_false_of_checkNode hchecked

theorem meets_deleteEdgesTouching (id : String) :
    Meets (TxAction.deleteEdgesTouching tenant id) (Shows c access described)
      (fun _ => Shows c access fun graphs => (graphs tenant).Bare id)
      (fun _ => Session.Intact c access) := by
  apply meets_writing (.deleteEdgesTouching id) .removed fun _ _ => rfl
  intro graphs hsound _
  rw [Write.applyAt_self]
  exact ⟨hsound.deleteEdgesTouching id, Tables.bare_deleteEdgesTouching _ id⟩

/-- A node goes after its edges, so that none is left dangling or to be seen. -/
theorem meets_deleteNode (id : String) :
    Meets (deleteNode tenant id) (Shows c access described)
      (fun _ => Shows c access fun graphs => (graphs tenant).Bare id)
      (fun _ => Session.Intact c access) := by
  apply (meets_deleteEdgesTouching id).bind
  intro _
  apply meets_writing (.deleteNode id) .found fun _ _ => rfl
  -- to delete the node leaves the edges as they are, so it stays bare
  intro graphs hsound hbare
  rw [Write.applyAt_self]
  exact ⟨hsound.deleteNode hbare, hbare⟩

theorem meets_checkEnd (id : String) :
    Meets (checkEnd tenant id) (Shows c access described)
      (fun _ => Shows c access fun graphs =>
        described graphs ∧ (graphs tenant).nodes[id]?.isSome = true)
      (fun _ => Session.Intact c access) := by
  apply (meets_hasNode id).bind
  intro present
  cases present with
  | false => exact Meets.throw fun _ h => h.1
  | true => exact Meets.pure fun _ h => h

/-- An edge comes after its ends, which nothing removes in between. -/
theorem meets_putEdge (edge : OpenEdge) :
    Meets (e.putEdge tenant edge) (Shows c access described) (fun _ => Session.Intact c access)
      (fun _ => Session.Intact c access) := by
  apply (meets_ofOutcome (checkEdge edge)).bind
  intro _
  apply Meets.given
  intro hchecked
  apply (meets_checkEnd edge.source).bind
  intro _
  apply (meets_checkEnd edge.target).bind
  intro _
  apply (meets_inTransaction fun _ => Action.confined_now).bind
  intro now
  apply (meets_inTransaction fun _ => confined_sealPayload e tenant _).bind
  intro payload
  apply (meets_keeping (.putEdge _) (fun _ => .done) (Write.stagedBy_putEdge _ _) ?_).bind
  · intro _
    exact Meets.pure fun _ h => h
  · -- both ends were seen by the same transaction and cannot have gone since
    rintro graphs hsound ⟨⟨_, hsource⟩, htarget⟩
    obtain ⟨hrelation, hfinite⟩ := related_of_checkEdge hchecked
    apply hsound.putEdge
    exact ⟨hrelation, hfinite, isNaN_eq_false_of_isFinite hfinite, hsource, htarget⟩

theorem meets_edit (edit : Edit) :
    Meets (e.edit tenant edit) (Shows c access described) (fun _ => Session.Intact c access)
      (fun _ => Session.Intact c access) := by
  cases edit with
  | putNode node =>
      apply (meets_putNode e node).bind
      exact fun _ => Meets.pure fun _ h => h
  | deleteNode id =>
      apply (meets_deleteNode id).bind
      exact fun _ => Meets.pure fun _ h => h.1
  | putEdge edge =>
      apply (meets_putEdge e edge).bind
      exact fun _ => Meets.pure fun _ h => h
  | deleteEdge key =>
      apply (meets_keeping (.deleteEdge key) .found (fun _ _ => rfl) ?_).bind
      · exact fun _ => Meets.pure fun _ h => h
      · exact fun graphs hsound _ => hsound.deleteEdge key
  | updateNode id u =>
      apply (meets_keeping (.updateNode id u) .found (fun _ _ => rfl) ?_).bind
      · exact fun _ => Meets.pure fun _ h => h
      · exact fun graphs hsound _ => hsound.updateNode id u
  | updateEdge key u =>
      apply (meets_keeping (.updateEdge key u) .found (fun _ _ => rfl) ?_).bind
      · exact fun _ => Meets.pure fun _ h => h
      · exact fun graphs hsound _ => hsound.updateEdge key u

end Engine

/-! ## The ends of a transaction -/

namespace Action

theorem meets_request (r : Request) :
    Meets (request r) (World.Intact c) (fun _ => World.Intact c) (fun _ => World.Intact c) := by
  apply Meets.of_finalState
  intro scope w hw
  have halone : w.conditions.others = [] := by
    rw [hw.conditions]
    exact hw.alone
  obtain ⟨hconditions, htables⟩ :=
    World.unchanged_of_confined (fun _ => confined_request r) scope halone
  exact hw.of_unchanged hconditions htables

/-- What has just been begun sees what is committed. -/
theorem meets_begin (access : Access) :
    Meets (begin access) (World.Intact c) (fun tx w => Session.Intact c access ⟨w, tx⟩)
      (fun _ => World.Intact c) := by
  apply (meets_request .begin).bind
  intro _ scope w hw
  refine ⟨⟨hw.conditions, hw.alone, hw.committed⟩, rfl, ?_⟩
  intro tenant
  show ((w.store.begin access).2.view (w.store.begin access).1 tenant).settled.Sound
  rw [Store.view_begin, View.settled, Store.publish_empty]
  exact hw.committed tenant

/-- What is committed in the end is what the transaction has seen. -/
theorem meets_commit (tx : Transaction) :
    Meets (commit tx) (fun w => Session.Intact c access ⟨w, tx⟩) (fun _ => World.Intact c)
      (fun _ => World.Intact c) := by
  have hrequest : Meets (request .commit) (fun w => Session.Intact c access ⟨w, tx⟩)
      (fun _ w => Session.Intact c access ⟨w, tx⟩)
      (fun _ w => Session.Intact c access ⟨w, tx⟩) := by
    apply Meets.of_finalState
    intro scope w hw
    have halone : w.conditions.others = [] := by
      rw [hw.world.conditions]
      exact hw.world.alone
    obtain ⟨hconditions, htables⟩ :=
      World.unchanged_of_confined (fun _ => confined_request .commit) scope halone
    have hshows : Session.Shows c access (fun _ => True) ⟨w, tx⟩ := ⟨hw, trivial⟩
    exact (hshows.of_unchanged hconditions htables).1
  apply (hrequest.weaken (fun _ h => h) (fun _ _ h => h) fun _ _ h => h.world).bind
  intro _ scope w hw
  refine ⟨hw.world.conditions, hw.world.alone, ?_⟩
  intro tenant
  show ((w.store.commit tx).tablesOf tenant).Sound
  rw [Store.tablesOf_commit]
  exact hw.seen tenant

end Action

/-! ## Turns -/

namespace Engine

variable (e : Engine)

theorem intact_tryEdit {s : Session} (h : s.Intact c access) (t : TenantEdit) :
    (e.tryEdit s t).Intact c access := by
  have hshows : s.Shows c access fun _ => True := ⟨h, trivial⟩
  exact (meets_edit e t.edit).finalState t.scope hshows

theorem intact_editAll (edits : List TenantEdit) :
    ∀ {s : Session}, s.Intact c access → (e.editAll edits s).Intact c access := by
  induction edits with
  | nil => exact fun h => h
  | cons t edits ih =>
      intro s h
      exact ih (intact_tryEdit e h t)

theorem intact_finish (commits : Bool) {s : Session} (h : s.Intact c access) (scope : Scope) :
    (finalState (finish commits s.tx scope s.world)).Intact c := by
  cases commits with
  | false => exact (Action.meets_request .rollback).finalState scope h.world
  | true => exact (Action.meets_commit s.tx).finalState scope h

theorem intact_takeTurn {w : World} (h : w.Intact c) (t : Turn) : (e.takeTurn w t).Intact c := by
  have hbegin := Action.meets_begin t.access t.scope w h
  unfold takeTurn
  cases hrun : Action.begin t.access t.scope w with
  | ok tx v =>
      rw [hrun] at hbegin
      exact intact_finish t.commits (intact_editAll e t.edits hbegin) t.scope
  | error f v =>
      rw [hrun] at hbegin
      exact hbegin

theorem intact_takeTurns (turns : List Turn) :
    ∀ {w : World}, w.Intact c → (e.takeTurns turns w).Intact c := by
  induction turns with
  | nil => exact fun h => h
  | cons t turns ih =>
      intro w h
      exact ih (intact_takeTurn e h t)

end Engine

/-! ## Where nothing fails -/

namespace Action

theorem wait_unbounded (duration : Nat) (w : World) :
    wait duration .unbounded w = .ok () (w.advance (w.clock + duration)) := by
  unfold wait
  rw [Scope.wait_unbounded]

/-- A request that neither fails nor is cut short is answered. -/
theorem request_answers (r : Request) {w : World}
    (hfailure : ∀ served r, w.conditions.failure served r = none) :
    ∃ v, request r .unbounded w = .ok () v := by
  rw [request_apply, hfailure]
  exact ⟨_, bind_of_ok (wait_unbounded _ _)⟩

theorem begin_answers (access : Access) {w : World}
    (hfailure : ∀ served r, w.conditions.failure served r = none) :
    ∃ tx v, begin access .unbounded w = .ok tx v := by
  obtain ⟨v, hv⟩ := request_answers .begin hfailure
  exact ⟨_, _, bind_of_ok hv⟩

end Action

namespace Session

variable {described : (Tenant → Tables) → Prop}

theorem writing_answers {r : Request}
    {write : Store → Transaction → Except Fault (α × Transaction)} (w : Write)
    (f : α → Write.Answer)
    (hwrite : ∀ store tx, w.stage store tx tenant = (write store tx).map fun r => (f r.1, r.2))
    (hfailure : ∀ served r, c.failure served r = none) {s : Session}
    (hs : s.Intact c .readWrite) :
    ∃ a t, TxAction.writing r write .unbounded s = .ok a t := by
  have hfailure' : ∀ served r, s.world.conditions.failure served r = none := by
    rw [hs.world.conditions]
    exact hfailure
  obtain ⟨v, hv⟩ := Action.request_answers r hfailure'
  have hrequest : Action.inTransaction (Action.request r) .unbounded s =
      .ok () { s with world := v } := by
    unfold Action.inTransaction
    rw [hv]
  have hlater : Shows c .readWrite (fun _ => True) { s with world := v } := by
    have hnow : s.Shows c .readWrite fun _ => True := ⟨hs, trivial⟩
    have hmeets := meets_inTransaction (fun _ => Action.confined_request r) .unbounded s hnow
    rw [hrequest] at hmeets
    exact hmeets
  have hwritable : s.tx.access.isWritable = true := by
    rw [hs.access]
    rfl
  obtain ⟨tx, hstage, _⟩ := w.stage_eq_ok hwritable (hlater.1.seen tenant).wellKeyed
  rw [hwrite] at hstage
  obtain ⟨a, t, hrun⟩ : ∃ a t, TxAction.stage write .unbounded { s with world := v } = .ok a t := by
    unfold TxAction.stage
    cases hwritten : write v.store s.tx with
    | ok result => exact ⟨_, _, rfl⟩
    | error f =>
        rw [hwritten] at hstage
        contradiction
  exact ⟨a, t, (bind_apply_of_ok hrequest).trans hrun⟩

end Session

namespace Engine

/-- In a transaction for writing, a deletion that does not fail is answered. -/
theorem deleteNode_answers (hfailure : ∀ served r, c.failure served r = none) {s : Session}
    (hs : s.Intact c .readWrite) (id : String) :
    ∃ present t, deleteNode tenant id .unbounded s = .ok present t := by
  obtain ⟨n, middle, hfirst⟩ :
      ∃ n t, TxAction.deleteEdgesTouching tenant id .unbounded s = .ok n t :=
    Session.writing_answers (.deleteEdgesTouching id) .removed (fun _ _ => rfl) hfailure hs
  have hmiddle : middle.Intact c .readWrite := by
    have hshows : s.Shows c .readWrite fun _ => True := ⟨hs, trivial⟩
    have hmeets := @meets_deleteEdgesTouching c .readWrite tenant _ id .unbounded s hshows
    rw [hfirst] at hmeets
    exact hmeets.1
  obtain ⟨present, t, hsecond⟩ : ∃ a t, TxAction.deleteNode tenant id .unbounded middle = .ok a t :=
    Session.writing_answers (.deleteNode id) .found (fun _ _ => rfl) hfailure hmiddle
  exact ⟨present, t, (bind_apply_of_ok hfirst).trans hsecond⟩

end Engine

/-! ## The result -/

namespace Engine

variable (e : Engine)

/-- From an empty store, after any turns the committed graphs of all tenants are sound. Then, in a
new transaction after any edits, so is whatever it sees, and no edge that touches a deleted node is
to be seen any more. Deletions that do not fail are answered. -/
theorem turns_keep_graphs_sound (w : World) (hstore : w.store = {})
    (halone : w.conditions.others = []) (turns : List Turn) :
    (∀ tenant, ((e.takeTurns turns w).store.tablesOf tenant).Sound) ∧
      ∀ (access : Access) (scope : Scope) (tx : Transaction) (opened : World)
        (edits : List TenantEdit),
        Action.begin access scope (e.takeTurns turns w) = .ok tx opened →
          let s := e.editAll edits ⟨opened, tx⟩
          (∀ tenant, (s.world.store.tablesOf tenant).Sound ∧ (s.view tenant).Sound) ∧
            (∀ tenant id scope present t, deleteNode tenant id scope s = .ok present t →
              (t.view tenant).Bare id) ∧
            (access = .readWrite → (∀ served r, w.conditions.failure served r = none) →
              ∀ tenant id, ∃ present t, deleteNode tenant id .unbounded s = .ok present t) := by
  have hreached : (e.takeTurns turns w).Intact w.conditions :=
    intact_takeTurns e turns (World.intact_of_empty hstore halone)
  refine ⟨hreached.committed, ?_⟩
  -- from here on, the invariant of sessions carries on that of worlds
  intro access scope tx opened edits hbegin
  have hopened := Action.meets_begin access scope _ hreached
  rw [hbegin] at hopened
  have hs : (e.editAll edits ⟨opened, tx⟩).Intact w.conditions access :=
    intact_editAll e edits hopened
  refine ⟨?_, ?_, ?_⟩
  · intro tenant
    exact ⟨hs.world.committed tenant, (View.sound_iff_settled _).2 (hs.seen tenant)⟩
  · intro tenant id scope present t hdelete
    have hshows : (e.editAll edits ⟨opened, tx⟩).Shows w.conditions access fun _ => True :=
      ⟨hs, trivial⟩
    have hmeets := @meets_deleteNode _ _ tenant _ id scope _ hshows
    rw [hdelete] at hmeets
    exact View.bare_of_settled hmeets.2
  · rintro rfl hfailure tenant id
    exact deleteNode_answers hfailure hs id

/-- Two persons are committed with an edge between them and without one that would dangle. In the
next transaction one of them is deleted, and the edge is not seen any more. -/
theorem turns_keep_graphs_sound_around_a_deletion :
    let e : Engine :=
      { nonce := fun _ => [], shuffle := fun _ ids => ids, shuffle_perm := fun _ _ => .refl _ }
    let person (id : String) : Edit := .putNode ⟨id, "person", id, ∅, none, default⟩
    let knows (a b : String) : Edit := .putEdge ⟨a, b, "knows", 1.0, ∅, default⟩
    let edits := [person "a", person "b", knows "a" "b", knows "a" "c"].map fun edit =>
      (⟨⟨"acme"⟩, edit, .unbounded⟩ : TenantEdit)
    let reached := e.takeTurns [⟨.readWrite, edits, true, .unbounded⟩] (World.start {} default)
    reached.store.edgeCount ⟨"acme"⟩ = 1 ∧
      ∃ tx opened present t, Action.begin .readWrite .unbounded reached = .ok tx opened ∧
        deleteNode ⟨"acme"⟩ "a" .unbounded ⟨opened, tx⟩ = .ok present t ∧
          (t.view ⟨"acme"⟩).Bare "a" := by
  intro e person knows edits reached
  obtain ⟨_, hlater⟩ := turns_keep_graphs_sound e (World.start {} default) rfl rfl
    [⟨.readWrite, edits, true, .unbounded⟩]
  have hconditions : reached.conditions = {} :=
    (intact_takeTurns e _ (World.intact_of_empty rfl rfl)).conditions
  have hfailure : ∀ served r, reached.conditions.failure served r = none := by
    rw [hconditions]
    exact fun _ _ => rfl
  obtain ⟨tx, opened, hbegin⟩ := Action.begin_answers .readWrite hfailure
  obtain ⟨_, hbare, hanswers⟩ := hlater .readWrite .unbounded tx opened [] hbegin
  obtain ⟨present, t, hdelete⟩ := hanswers rfl (fun _ _ => rfl) ⟨"acme"⟩ "a"
  refine ⟨by decide +kernel, tx, opened, present, t, hbegin, hdelete, ?_⟩
  exact hbare ⟨"acme"⟩ "a" .unbounded present t hdelete

end Engine

end SalientGraph
