import SalientGraph.Proofs.Custody
import SalientGraph.Proofs.Dating

/-!
# How far a sweep gets

A sweep may be interrupted at any point: between two batches, while a batch reads its
nodes, or when some of its changes are staged and others are not. The batches before
that point are committed and stay, and of the one that was under way nothing is left.
So what an interrupted sweep leaves is what a sweep leaves that goes on to its end,
as far as the nodes of the committed batches are concerned, and what was there before
for all the others.
-/

namespace SalientGraph

/-! ## Answers in different scopes -/

section
variable {σ α β : Type}

/-- If it is answered in two scopes, it is answered alike and leads to the same state. -/
structure Coherent (act : Acts σ α) : Prop where
  agree : ∀ {scope scope' : Scope} {s t t' : σ} {a a' : α},
    act scope s = .ok a t → act scope' s = .ok a' t' → a = a' ∧ t = t'

namespace Coherent

/-- What does not consult its scope is coherent. -/
theorem of_eq {act : Acts σ α} (h : ∀ scope scope' s, act scope s = act scope' s) :
    Coherent act := by
  constructor
  intro scope scope' s t t' a a' hrun hrun'
  rw [h scope' scope, hrun] at hrun'
  cases hrun'
  exact ⟨rfl, rfl⟩

theorem pure (a : α) : Coherent (Pure.pure a : Acts σ α) :=
  of_eq fun _ _ _ => rfl

theorem throw (f : Fault) : Coherent (MonadExcept.throw f : Acts σ α) :=
  of_eq fun _ _ _ => rfl

theorem bind {act : Acts σ α} {next : α → Acts σ β} (h : Coherent act)
    (hnext : ∀ a, Coherent (next a)) : Coherent (act >>= next) := by
  constructor
  intro scope scope' s t t' b b' hrun hrun'
  obtain ⟨a, u, hact, hrest⟩ := exists_of_bind_eq_ok hrun
  obtain ⟨a', u', hact', hrest'⟩ := exists_of_bind_eq_ok hrun'
  obtain ⟨rfl, rfl⟩ := h.agree hact hact'
  exact (hnext a).agree hrest hrest'

theorem mapM {f : α → Acts σ β} (h : ∀ a, Coherent (f a)) (xs : List α) :
    Coherent (xs.mapM f) := by
  induction xs with
  | nil => exact pure []
  | cons x xs ih =>
      rw [List.mapM_cons]
      exact (h x).bind fun b => ih.bind fun bs => pure (b :: bs)

theorem check : Coherent Action.check := by
  have hsame : ∀ {scope : Scope} {w v : World}, Action.check scope w = .ok () v → v = w := by
    intro scope w v h
    unfold Action.check at h
    split at h
    · cases h
      rfl
    · contradiction
  exact ⟨fun h h' => ⟨rfl, (hsame h).trans (hsame h').symm⟩⟩

/-- A wait that is not cut short takes its time. -/
theorem wait (duration : Nat) : Coherent (Action.wait duration) := by
  have hsame : ∀ {scope : Scope} {w v : World}, Action.wait duration scope w = .ok () v →
      v = w.advance (w.clock + duration) := by
    intro scope w v h
    unfold Action.wait at h
    rcases scope.wait_cases w.clock duration with hwait | ⟨f, time, hwait, -⟩
    · rw [hwait] at h
      cases h
      rfl
    · rw [hwait] at h
      contradiction
  exact ⟨fun h h' => ⟨rfl, (hsame h).trans (hsame h').symm⟩⟩

theorem request (r : Request) : Coherent (Action.request r) := by
  constructor
  intro scope scope' w v v' _ _ h h'
  rw [Action.request_apply] at h h'
  -- in either scope, the wait and the failure are those of the same conditions
  refine Coherent.agree ?_ h h'
  apply (wait _).bind
  intro _
  cases w.conditions.failure w.served r with
  | some reason => exact throw (.storage reason)
  | none => exact pure ()

theorem begin (access : Access) : Coherent (Action.begin access) :=
  (request .begin).bind fun _ => of_eq fun _ _ _ => rfl

theorem inTransaction {act : Action α} (h : Coherent act) :
    Coherent (Action.inTransaction act) := by
  have hacts : ∀ {scope : Scope} {s t : Session} {a : α},
      Action.inTransaction act scope s = .ok a t →
        ∃ v, act scope s.world = .ok a v ∧ t = { s with world := v } := by
    intro scope s t a hrun
    unfold Action.inTransaction at hrun
    split at hrun
    · rename_i hact
      cases hrun
      exact ⟨_, hact, rfl⟩
    · contradiction
  constructor
  intro scope scope' s t t' a a' hrun hrun'
  obtain ⟨v, hact, rfl⟩ := hacts hrun
  obtain ⟨v', hact', rfl⟩ := hacts hrun'
  obtain ⟨rfl, rfl⟩ := h.agree hact hact'
  exact ⟨rfl, rfl⟩

theorem step {act : TxAction α} (h : Coherent act) : Coherent (TxAction.step act) :=
  check.inTransaction.bind fun _ => h

theorem reading (r : Request) (tenant : Tenant) (answer : View → α) :
    Coherent (TxAction.reading r tenant answer) :=
  (request r).inTransaction.bind fun _ => of_eq fun _ _ _ => rfl

theorem writing (r : Request)
    (write : Store → Transaction → Except Fault (α × Transaction)) :
    Coherent (TxAction.writing r write) :=
  (request r).inTransaction.bind fun _ => of_eq fun _ _ _ => rfl

/-- A transaction that is answered is so from its session, and its end is not cut short. -/
theorem transact {body : TxAction α} (h : Coherent body) (access : Access) :
    Coherent (Action.transact access body) := by
  constructor
  intro scope scope' w v v' a a' hrun hrun'
  obtain ⟨tx, u, s, -, hbegin, hbody, hcommit⟩ := Action.exists_of_transact_eq_ok hrun
  obtain ⟨tx', u', s', -, hbegin', hbody', hcommit'⟩ := Action.exists_of_transact_eq_ok hrun'
  obtain ⟨rfl, rfl⟩ := (begin access).agree hbegin hbegin'
  obtain ⟨rfl, rfl⟩ := h.agree hbody hbody'
  have hsame : Action.uninterrupted (Action.commit s.tx) scope' s.world = .ok () v := hcommit
  rw [hcommit'] at hsame
  cases hsame
  exact ⟨rfl, rfl⟩

end Coherent
end

namespace Engine

theorem coherent_refresh (tenant : Tenant) (now : Timestamp) (row : SealedNode) :
    Coherent (refresh tenant now row) := by
  unfold refresh
  cases row.relevance.refreshed? now with
  | none => exact .pure false
  | some fresh => exact .step (.writing _ _)

/-- The same nodes are rated at the same time, if the scope leaves the batch the time for it. -/
theorem coherent_batch (e : Engine) (tenant : Tenant) (cursor : Option String) :
    Coherent (e.batch tenant cursor) := by
  have hnow : Coherent Action.now := .of_eq fun _ _ _ => rfl
  apply (Coherent.step (.reading _ _ _)).bind
  intro rows
  apply hnow.inTransaction.bind
  intro now
  exact (Coherent.mapM (coherent_refresh tenant now) rows).bind fun changes => .pure _

end Engine

/-! ## Nodes and their scores -/

namespace Relevance

theorem isSome_refreshed? (r : Relevance) (now : Timestamp) :
    (r.refreshed? now).isSome = differs r.salience.toFloat (r.score now) := by
  unfold refreshed?
  cases differs r.salience.toFloat (r.score now) <;> rfl

end Relevance

namespace Node

variable {π : Type}

/-- The node rated anew at some time, if its score has changed by then. -/
def refreshed (row : Node π) (now : Timestamp) : Node π :=
  row.mapRelevance (Touch.refresh.act now)

variable (row : Node π) (now : Timestamp)

/-- Of a node that is rated anew, only the salience and the time of the rating change. -/
theorem refreshed_eq : row.refreshed now =
    if Relevance.differs row.relevance.salience.toFloat (row.relevance.score now) then
      { row with
        relevance :=
          { row.relevance with
            salience := .ofFloat (row.relevance.score now)
            updatedAt := now } }
    else row := by
  show { row with relevance := (row.relevance.refreshed? now).getD row.relevance } = _
  unfold Relevance.refreshed?
  split <;> rfl

variable {row now} in
theorem refreshed_of_not_differs
    (h : Relevance.differs row.relevance.salience.toFloat (row.relevance.score now) = false) :
    row.refreshed now = row := by
  rw [refreshed_eq, h]
  rfl

/-- The salience of a node that was rated anew is its score. -/
theorem not_differs_refreshed :
    Relevance.differs (row.refreshed now).relevance.salience.toFloat
      ((row.refreshed now).relevance.score now) = false := by
  cases hdiffers : Relevance.differs row.relevance.salience.toFloat (row.relevance.score now) with
  | false =>
      rw [refreshed_of_not_differs hdiffers]
      exact hdiffers
  | true =>
      rw [refreshed_eq, if_pos hdiffers]
      show Relevance.differs (Double.ofFloat (row.relevance.score now)).toFloat
        (row.relevance.score now) = false
      rw [Double.toFloat_ofFloat]
      exact Relevance.differs_self _

end Node

/-! ## What batches leave -/

namespace Tables

variable {t : Tables} {size : Nat} {ids : List String} {times : List Timestamp} {id : String}

theorem getElem?_nodes_refreshNodes (now : Timestamp) (asked : String → Bool) (t : Tables)
    (id : String) : (t.refreshNodes now asked).nodes[id]? =
      t.nodes[id]?.map fun row => if asked id then row.refreshed now else row := by
  unfold refreshNodes
  rw [getElem?_nodes_touch]
  congr 1
  funext row
  cases asked id <;> rfl

@[simp] theorem edges_refreshNodes (now : Timestamp) (asked : String → Bool) (t : Tables) :
    (t.refreshNodes now asked).edges = t.edges := by
  apply Std.ExtTreeMap.ext_getElem?
  intro key
  unfold refreshNodes
  rw [getElem?_edges_touch]
  cases t.edges[key]? <;> rfl

/-- The tables after some batches over a list of nodes. Each of them rates the next so many nodes,
all of them for the time of the batch. -/
def refreshEach (size : Nat) : List Timestamp → List String → Tables → Tables
  | [], _, t => t
  | now :: later, ids, t =>
    refreshEach size later (ids.drop size) (t.refreshNodes now (· ∈ ids.take size))

/-- The number of stale nodes that these batches come across. -/
def staleEach (size : Nat) : List Timestamp → List String → Tables → Nat
  | [], _, _ => 0
  | now :: later, ids, t =>
    (ids.take size).countP (t.isStale now) +
      staleEach size later (ids.drop size) (t.refreshNodes now (· ∈ ids.take size))

@[simp] theorem edges_refreshEach (times : List Timestamp) :
    ∀ (ids : List String) (t : Tables), (refreshEach size times ids t).edges = t.edges := by
  induction times with
  | nil => exact fun _ _ => rfl
  | cons now later ih =>
      intro ids t
      rw [refreshEach, ih, edges_refreshNodes]

@[simp] theorem keys_nodes_refreshEach (times : List Timestamp) :
    ∀ (ids : List String) (t : Tables),
      (refreshEach size times ids t).nodes.keys = t.nodes.keys := by
  induction times with
  | nil => exact fun _ _ => rfl
  | cons now later ih =>
      intro ids t
      rw [refreshEach, ih]
      exact keys_nodes_touch _ _ t

theorem getElem?_nodes_refreshEach_of_not_mem (times : List Timestamp) :
    ∀ {ids : List String} (t : Tables), id ∉ ids →
      (refreshEach size times ids t).nodes[id]? = t.nodes[id]? := by
  induction times with
  | nil => exact fun _ _ => rfl
  | cons now later ih =>
      intro ids t hid
      have htake : ¬ decide (id ∈ ids.take size) = true := fun h =>
        hid (List.mem_of_mem_take (of_decide_eq_true h))
      rw [refreshEach, ih _ fun h => hid (List.mem_of_mem_drop h), getElem?_nodes_refreshNodes]
      simp only [if_neg htake, Option.map_id']

/-- A node is rated by the batch that its place in the list belongs to, if there was this batch. -/
theorem getElem?_nodes_refreshEach (hsize : 1 ≤ size) (times : List Timestamp) :
    ∀ {ids : List String} (t : Tables) {i : Nat}, ids.Nodup → ids[i]? = some id →
      (refreshEach size times ids t).nodes[id]? =
        t.nodes[id]?.map fun row => times[i / size]?.elim row row.refreshed := by
  induction times with
  | nil =>
      intro ids t i _ _
      simp only [refreshEach, List.getElem?_nil, Option.elim_none, Option.map_id']
  | cons now later ih =>
      intro ids t i hnodup hid
      have hdisjoint : (ids.take size).Disjoint (ids.drop size) :=
        List.disjoint_take_drop hnodup (Nat.le_refl _)
      rw [refreshEach]
      by_cases hi : i < size
      · -- the node is rated by the first batch, and the later ones leave it alone
        have htake : id ∈ ids.take size :=
          List.mem_of_getElem? ((List.getElem?_take_of_lt hi).trans hid)
        rw [getElem?_nodes_refreshEach_of_not_mem later _ (hdisjoint htake),
          getElem?_nodes_refreshNodes, Nat.div_eq_of_lt hi]
        simp only [decide_eq_true htake, if_true, List.getElem?_cons_zero, Option.elim_some]
      · have hplace : (ids.drop size)[i - size]? = some id := by
          rw [List.getElem?_drop, Nat.add_sub_cancel' (Nat.le_of_not_lt hi)]
          exact hid
        have htake : ¬ decide (id ∈ ids.take size) = true := fun h =>
          hdisjoint (of_decide_eq_true h) (List.mem_of_getElem? hplace)
        rw [ih _ (hnodup.sublist (List.drop_sublist size ids)) hplace,
          getElem?_nodes_refreshNodes, Nat.div_eq_sub_div hsize (Nat.le_of_not_lt hi)]
        simp only [if_neg htake, Option.map_id', List.getElem?_cons_succ]

end Tables

/-! ## What a sweep has come to -/

/-- Some batches have rated nodes of a tenant, each of them at a time of its own, in this order.
Nothing but that and the announcements of some events has happened. -/
structure World.Progress (tenant : Tenant) (size : Nat) (ids : List String) (times : List Nat)
    (events : List ChangeEvent) (w v : World) : Prop where
  becomes : w.Becomes
    (changedAt tenant (Tables.refreshEach size (times.map w.wall) ids) w.store.tablesOf) events v
  ordered : (w.clock :: times ++ [v.clock]).Pairwise (· ≤ ·)

namespace World.Progress

variable {tenant : Tenant} {size : Nat} {ids : List String} {times : List Nat} {time : Nat}
  {u v w : World}

/-- Where no batch was committed, nothing has changed. -/
theorem nil (halone : w.conditions.others = []) (hkeyed : w.store.WellKeyed) (h : w.Still v)
    (hsince : v.Since w.clock) : w.Progress tenant size ids [] [] v where
  becomes := by
    have hsame : changedAt tenant (Tables.refreshEach size [] ids) w.store.tablesOf =
        w.store.tablesOf := changedAt_id tenant _
    rw [List.map_nil, hsame]
    exact h.becomes halone hkeyed
  ordered := by
    rw [List.cons_append, List.nil_append, List.pairwise_pair]
    exact hsince

/-- After a batch, progress is made with the nodes behind it. -/
theorem cons (hle : w.clock ≤ time) (hsince : u.Since time)
    (hbatch : w.Becomes (changedAt tenant
      (Tables.refreshNodes (w.wall time) (· ∈ ids.take size)) w.store.tablesOf) [] u)
    (hrest : u.Progress tenant size (ids.drop size) times [] v) :
    w.Progress tenant size ids (time :: times) [] v where
  becomes := by
    have htables : u.store.tablesOf = changedAt tenant _ w.store.tablesOf := funext hbatch.tables
    have hlater := hrest.becomes
    rw [htables, changedAt_changedAt, hbatch.wall] at hlater
    exact hbatch.trans hlater
  ordered := by
    obtain ⟨hafter, hordered⟩ := List.pairwise_cons.1 hrest.ordered
    have hsince' : ∀ later ∈ times ++ [v.clock], time ≤ later :=
      fun later hlater => Nat.le_trans hsince (hafter later hlater)
    refine List.pairwise_cons.2 ⟨?_, List.pairwise_cons.2 ⟨hsince', hordered⟩⟩
    intro later hlater
    rcases List.mem_cons.1 hlater with rfl | hlater
    · exact hle
    · exact Nat.le_trans hle (hsince' later hlater)

theorem announce (h : w.Progress tenant size ids times [] v) (told : List ChangeEvent) :
    w.Progress tenant size ids times told { v with announced := v.announced ++ told } where
  becomes := h.becomes.announce
  ordered := h.ordered

/-- Progress that was made with a permit in hand is there when the permit has gone back. -/
theorem released {events : List ChangeEvent} {g : Guard} (hfree : w.guard.holder? tenant = none)
    (hholder : ∀ other, g.holder? other =
      if other = tenant then some w.guard.issued else w.guard.holder? other)
    (h : World.Progress tenant size ids times events { w with guard := g } v) :
    w.Progress tenant size ids times events (Engine.released ⟨tenant, w.guard.issued⟩ v) where
  becomes := Engine.becomes_released hfree hholder h.becomes
  ordered := h.ordered

section
variable {events : List ChangeEvent} (h : w.Progress tenant size ids times events v)
include h

theorem tablesOf_self : v.store.tablesOf tenant =
    (w.store.tablesOf tenant).refreshEach size (times.map w.wall) ids :=
  (h.becomes.tables tenant).trans (changedAt_self tenant _ _)

theorem tablesOf_of_ne {other : Tenant} (hother : other ≠ tenant) :
    v.store.tablesOf other = w.store.tablesOf other :=
  (h.becomes.tables other).trans (changedAt_of_ne hother _ _)

variable (hsize : 1 ≤ size) (hnodup : ids.Nodup) {i : Nat} {id : String} (hid : ids[i]? = some id)
include hsize hnodup hid

/-- As far as batches have come, a node is rated at the time of its own batch. -/
theorem rated_of_lt (hi : i < times.length * size) : ∃ time, times[i / size]? = some time ∧
    (v.store.tablesOf tenant).nodes[id]? =
      (w.store.tablesOf tenant).nodes[id]?.map (·.refreshed (w.wall time)) := by
  have hbatch : i / size < times.length := (Nat.div_lt_iff_lt_mul hsize).2 hi
  have htime := List.getElem?_eq_getElem hbatch
  refine ⟨times[i / size], htime, ?_⟩
  rw [h.tablesOf_self, Tables.getElem?_nodes_refreshEach hsize _ _ hnodup hid, List.getElem?_map,
    htime]
  rfl

/-- The nodes behind these are as they were. -/
theorem kept_of_le (hi : times.length * size ≤ i) : (v.store.tablesOf tenant).nodes[id]? =
    (w.store.tablesOf tenant).nodes[id]? := by
  have hbatch : times.length ≤ i / size := (Nat.le_div_iff_mul_le hsize).2 hi
  rw [h.tablesOf_self, Tables.getElem?_nodes_refreshEach hsize _ _ hnodup hid, List.getElem?_map,
    List.getElem?_eq_none hbatch]
  exact Option.map_id'

end
end World.Progress

/-- The nodes of a tenant that a sweep has ahead of it, in the order in which it comes to them. -/
def World.ahead (w : World) (tenant : Tenant) (cursor : Option String) : List String :=
  (w.store.tablesOf tenant).nodes.keys.filter (isAfter cursor)

namespace Engine

open SalientGraph.Action (bind_of_error bind_of_ok)

/-- The batches of a sweep with some nodes ahead of it, if they were rated at these times and the
sweep has come to its end. -/
structure Completes (size : Nat) (ids : List String) (t : Tables) (times : List Timestamp)
    (batches : List Batch) : Prop where
  looked : batches.flatMap Batch.ids = ids
  enough : batches.length = ids.length / size + 1
  timed : times.length = batches.length
  changed : changesIn batches = t.staleEach size times ids

variable (e : Engine) {tenant : Tenant} {cursor : Option String} {scope : Scope} {w v : World}

section
variable (halone : w.conditions.others = []) (hkeyed : w.store.WellKeyed)
include halone hkeyed

/-- What a batch that is answered has looked at and what it has done. -/
theorem batch_of_ok {done : Batch}
    (h : Action.transact .readWrite (e.batch tenant cursor) scope w = .ok done v) :
    let ids := (w.ahead tenant cursor).take e.batchSize
    ∃ time, done = ⟨ids, ids.countP ((w.store.tablesOf tenant).isStale (w.wall time))⟩ ∧
      w.clock ≤ time ∧ v.Since time ∧
      w.Becomes (changedAt tenant (Tables.refreshNodes (w.wall time) (· ∈ ids))
        w.store.tablesOf) [] v := by
  rcases @transact_batch_cases tenant e w halone hkeyed cursor scope with
    ⟨f, u, hrun, -⟩ | ⟨time, u, hrun, hdone⟩
  · rw [h] at hrun
    contradiction
  · rw [h] at hrun
    cases hrun
    exact ⟨time, rfl, hdone⟩

theorem batch_of_error {f : Fault}
    (h : Action.transact .readWrite (e.batch tenant cursor) scope w = .error f v) :
    w.Still v ∧ v.Since w.clock := by
  rcases @transact_batch_cases tenant e w halone hkeyed cursor scope with
    ⟨g, u, hrun, hu⟩ | ⟨time, u, hrun, -⟩
  · rw [h] at hrun
    cases hrun
    exact hu
  · rw [h] at hrun
    contradiction

end

/-- A full batch is one less to come. -/
theorem length_div_eq {size : Nat} (hsize : 1 ≤ size) {ids : List String}
    (hlength : size ≤ ids.length) : ids.length / size = (ids.drop size).length / size + 1 := by
  rw [List.length_drop]
  exact Nat.div_eq_sub_div hsize hlength

theorem length_div_lt {size : Nat} (hsize : 1 ≤ size) {ids : List String}
    (hlength : size ≤ ids.length) {more : Nat} (h : ids.length / size < more + 1) :
    (ids.drop size).length / size < more := by
  rw [length_div_eq hsize hlength] at h
  exact Nat.lt_of_succ_lt_succ h

/-- Behind a full batch there are the nodes that it has left. -/
theorem ahead_of_full {size : Nat} (hsize : 1 ≤ size) {now : Timestamp} {asked : String → Bool}
    (hv : w.Becomes (changedAt tenant (Tables.refreshNodes now asked) w.store.tablesOf) [] v)
    (hfull : ¬ ((w.ahead tenant cursor).take size).length < size) :
    v.ahead tenant ((w.ahead tenant cursor).take size).getLast? =
        (w.ahead tenant cursor).drop size ∧ size ≤ (w.ahead tenant cursor).length := by
  rw [List.length_take] at hfull
  have hlength : size ≤ (w.ahead tenant cursor).length := by omega
  refine ⟨?_, hlength⟩
  have hsome : (w.ahead tenant cursor).take size ≠ [] := by
    rw [← List.length_pos_iff, List.length_take]
    omega
  have hlast := List.getLast?_eq_some_getLast hsome
  have hkeys : (v.store.tablesOf tenant).nodes.keys = (w.store.tablesOf tenant).nodes.keys := by
    rw [hv.tables, changedAt_self]
    exact Tables.keys_nodes_touch _ _ _
  rw [World.ahead, hkeys, hlast]
  exact filter_isAfter_getLast?_page (Tables.pairwise_keys_nodes _) hlast

/-- A sweep that is answered has come to all nodes ahead of it. -/
theorem progress_of_ok (more : Nat) :
    ∀ {cursor : Option String} {w v : World} {batches : List Batch},
      w.conditions.others = [] → w.store.WellKeyed →
      (w.ahead tenant cursor).length / e.batchSize < more →
      e.sweepFrom tenant more cursor scope w = .ok batches v →
      ∃ times, w.Progress tenant e.batchSize (w.ahead tenant cursor) times [] v ∧
        Completes e.batchSize (w.ahead tenant cursor) (w.store.tablesOf tenant)
          (times.map w.wall) batches := by
  induction more with
  | zero => exact fun _ _ hmore => absurd hmore (Nat.not_lt_zero _)
  | succ more ih =>
      intro cursor w v batches halone hkeyed hmore hrun
      let size := e.batchSize
      have hsize : 1 ≤ size := e.one_le_batchSize
      let ids := w.ahead tenant cursor
      obtain ⟨done, u, hbatch, hrest⟩ := exists_of_bind_eq_ok hrun
      obtain ⟨time, rfl, hle, hsince, hu⟩ := e.batch_of_ok halone hkeyed hbatch
      split at hrest
      · -- the batch was not full, so nothing is left
        rename_i hshort
        cases hrest
        have hlength : ids.length < size := by
          have hless : (ids.take size).length < size := hshort
          rw [List.length_take] at hless
          omega
        have hleft : ids.drop size = [] := List.drop_of_length_le (Nat.le_of_lt hlength)
        have hall : ids.take size = ids := List.take_of_length_le (Nat.le_of_lt hlength)
        refine ⟨[time], .cons hle hsince hu ?_, ?_⟩
        · exact .nil (hu.conditions ▸ halone) hu.wellKeyed (.refl _) (Nat.le_refl _)
        · constructor
          · exact (List.flatMap_singleton _ _).trans hall
          · rw [Nat.div_eq_of_lt hlength]
            rfl
          · rfl
          · exact changesIn_cons _ []
      · rename_i hfull
        obtain ⟨later, v', hlater, hdone⟩ := exists_of_bind_eq_ok hrest
        cases hdone
        obtain ⟨hleft, hlength⟩ := ahead_of_full hsize hu hfull
        have hless : (ids.drop size).length / size < more :=
          length_div_lt hsize hlength hmore
        obtain ⟨times, hprogress, hcompletes⟩ :=
          ih (hu.conditions ▸ halone) hu.wellKeyed (hleft ▸ hless) hlater
        rw [hleft] at hprogress hcompletes
        refine ⟨time :: times, .cons hle hsince hu hprogress, ?_⟩
        rw [hu.tables, changedAt_self, hu.wall] at hcompletes
        constructor
        · rw [List.flatMap_cons, hcompletes.looked]
          exact List.take_append_drop size ids
        · rw [List.length_cons, hcompletes.enough]
          exact congrArg (· + 1) (length_div_eq hsize hlength).symm
        · rw [List.map_cons, List.length_cons, hcompletes.timed, List.length_cons]
        · rw [changesIn_cons, hcompletes.changed]
          rfl

/-- A sweep that is cut short has come to the nodes of whole batches, and if it is answered in
another scope, it has come to these in the same way. -/
theorem progress_of_error (more : Nat) :
    ∀ {cursor : Option String} {w v : World} {f : Fault},
      w.conditions.others = [] → w.store.WellKeyed →
      (w.ahead tenant cursor).length / e.batchSize < more →
      e.sweepFrom tenant more cursor scope w = .error f v →
      ∃ times, w.Progress tenant e.batchSize (w.ahead tenant cursor) times [] v ∧
        times.length * e.batchSize ≤ (w.ahead tenant cursor).length ∧
        ∀ {scope' : Scope} {batches : List Batch} {u : World},
          e.sweepFrom tenant more cursor scope' w = .ok batches u →
          ∃ later, w.Progress tenant e.batchSize (w.ahead tenant cursor)
            (times ++ later) [] u := by
  induction more with
  | zero => exact fun _ _ hmore => absurd hmore (Nat.not_lt_zero _)
  | succ more ih =>
      intro cursor w v f halone hkeyed hmore hrun
      let size := e.batchSize
      have hsize : 1 ≤ size := e.one_le_batchSize
      let ids := w.ahead tenant cursor
      rcases Action.exists_of_bind_eq_error hrun with hfailed | ⟨done, u, hbatch, hrest⟩
      · -- the first batch has failed, and nothing is left of it
        obtain ⟨hstill, hsince⟩ := e.batch_of_error halone hkeyed hfailed
        refine ⟨[], .nil halone hkeyed hstill hsince, by simp, ?_⟩
        intro scope' batches u hanswered
        obtain ⟨times, hprogress, -⟩ :=
          e.progress_of_ok (more + 1) halone hkeyed hmore hanswered
        exact ⟨times, hprogress⟩
      · obtain ⟨time, rfl, hle, hsince, hu⟩ := e.batch_of_ok halone hkeyed hbatch
        split at hrest
        · contradiction
        · rename_i hfull
          obtain ⟨hleft, hlength⟩ := ahead_of_full hsize hu hfull
          have hless : (ids.drop size).length / size < more :=
            length_div_lt hsize hlength hmore
          obtain ⟨times, hprogress, hwhole, hanswered⟩ := ih (hu.conditions ▸ halone) hu.wellKeyed
            (hleft ▸ hless) (Action.eq_error_of_map hrest)
          rw [hleft] at hprogress hwhole
          refine ⟨time :: times, .cons hle hsince hu hprogress, ?_, ?_⟩
          · rw [List.length_drop] at hwhole
            rw [List.length_cons, Nat.succ_mul]
            omega
          · intro scope' batches u' hrun'
            -- in the other scope, the first batch has come to the same
            obtain ⟨done', v', hbatch', hrest'⟩ := exists_of_bind_eq_ok hrun'
            obtain ⟨rfl, rfl⟩ :=
              ((e.coherent_batch tenant cursor).transact .readWrite).agree hbatch hbatch'
            rw [if_neg hfull] at hrest'
            obtain ⟨more', v'', hlater', hdone'⟩ := exists_of_bind_eq_ok hrest'
            cases hdone'
            obtain ⟨later, hprogress'⟩ := hanswered hlater'
            rw [hleft] at hprogress'
            exact ⟨later, .cons hle hsince hu hprogress'⟩

/-! ## From the permit to its return -/

end Engine

theorem World.ahead_none (w : World) (tenant : Tenant) :
    w.ahead tenant none = (w.store.tablesOf tenant).nodes.keys :=
  List.filter_eq_self.2 fun _ _ => rfl

/-- There are enough batches for all nodes. -/
theorem World.length_ahead_lt (w : World) (tenant : Tenant) (size : Nat) :
    (w.ahead tenant none).length / size <
      w.store.nodeCount tenant + w.conditions.nodesWritten tenant + 1 := by
  rw [w.ahead_none, Std.ExtTreeMap.length_keys]
  have hcount : w.store.nodeCount tenant = (w.store.tablesOf tenant).nodes.size := rfl
  have hdiv := Nat.div_le_self (w.store.tablesOf tenant).nodes.size size
  omega

namespace Engine

variable (e : Engine)

section
variable {tenant : Tenant} {scope : Scope} {w v : World}
  (halone : w.conditions.others = []) (hkeyed : w.store.WellKeyed)
include halone hkeyed

/-- An answer counts the changes of batches that have come to all nodes. -/
theorem progress_of_recalculate {n : Nat} (h : e.recalculate tenant scope w = .ok n v) :
    let size := e.batchSize
    let t := w.store.tablesOf tenant
    w.guard.holder? tenant = none ∧ ∃ times batches u u',
      acquire tenant scope w = .ok ⟨tenant, w.guard.issued⟩ u ∧
      e.sweep tenant (scope.child w.clock e.config.sweep.deadlineMillis) u = .ok batches u' ∧
      changesIn batches = n ∧ Completes size t.nodes.keys t (times.map w.wall) batches ∧
      w.Progress tenant size t.nodes.keys times (changesTold tenant n) v := by
  dsimp only
  obtain ⟨hfree, g, batches, u, hg, hacquire, hsweep, hcount, rfl⟩ := e.recalculate_eq_ok h
  let begun : World := { w with guard := g }
  obtain ⟨times, hprogress, hcompletes⟩ :=
    @progress_of_ok e tenant _ _ none begun u batches halone hkeyed
      (begun.length_ahead_lt tenant _) hsweep
  rw [World.ahead_none] at hprogress hcompletes
  exact ⟨hfree, times, batches, begun, u, hacquire, hsweep, hcount, hcompletes,
    (hprogress.announce _).released hfree hg⟩

/-- A fault leaves the progress of whole batches, which is the progress of a sweep that is
answered as far as it goes. -/
theorem progress_of_recalculate_error {f : Fault}
    (h : e.recalculate tenant scope w = .error f v) :
    let size := e.batchSize
    let keys := (w.store.tablesOf tenant).nodes.keys
    f = .conflict ("salience recalculation already running for tenant " ++ tenant.name) ∧ v = w ∨
      w.guard.holder? tenant = none ∧ ∃ times, times.length * size ≤ keys.length ∧
        w.Progress tenant size keys times [] v ∧
        ∀ scope' n u, e.recalculate tenant scope' w = .ok n u →
          ∃ later, w.Progress tenant size keys (times ++ later) (changesTold tenant n) u := by
  dsimp only
  rcases e.recalculate_eq_error h with hrefused | ⟨hfree, g, u, hg, hacquire, hsweep, rfl⟩
  · exact .inl hrefused
  · let begun : World := { w with guard := g }
    obtain ⟨times, hprogress, hwhole, hanswered⟩ :=
      @progress_of_error e tenant _ _ none begun u f halone hkeyed
        (begun.length_ahead_lt tenant _) hsweep
    rw [World.ahead_none] at hprogress hwhole
    refine .inr ⟨hfree, times, hwhole, hprogress.released hfree hg, ?_⟩
    intro scope' n v' hrun
    obtain ⟨-, g', batches, u', -, hacquire', hsweep', -, rfl⟩ := e.recalculate_eq_ok hrun
    -- the same permit is taken in either scope
    have hsame : acquire tenant scope w = .ok _ { w with guard := g' } := hacquire'
    rw [hacquire] at hsame
    cases hsame
    obtain ⟨later, hlater⟩ := hanswered hsweep'
    rw [World.ahead_none] at hlater
    exact ⟨later, (hlater.announce _).released hfree hg⟩

end

/-- A sweep that reports its deadline or a cancellation, however long each request to the store
takes and wherever it is cut short, has rated whole batches, each at a time of its own, and given
its permit back. The nodes of these batches are the first ones in the order of their identifiers,
and they are as a sweep from the same world leaves them which is answered. All other nodes, the
edges and the graphs of other tenants are as they were. -/
theorem interrupted_sweeps_keep_whole_batches (tenant : Tenant) (scope : Scope) {w v : World}
    (hstore : w.store.Reached) (halone : w.conditions.others = []) {f : Fault}
    (hinterrupted : f = .deadlineExceeded ∨ f = .cancelled)
    (hrun : e.recalculate tenant scope w = .error f v) :
    let size := e.batchSize
    let before := w.store.tablesOf tenant
    let after := v.store.tablesOf tenant
    ∃ times : List Nat, times.length * size ≤ before.nodes.size ∧
      (w.clock :: times ++ [v.clock]).Pairwise (· ≤ ·) ∧
      (∀ i id, before.nodes.keys[i]? = some id →
        (i < times.length * size →
          (∃ time, times[i / size]? = some time ∧
            after.nodes[id]? = before.nodes[id]?.map (·.refreshed (w.wall time))) ∧
          ∀ scope' n u, e.recalculate tenant scope' w = .ok n u →
            after.nodes[id]? = (u.store.tablesOf tenant).nodes[id]?) ∧
        (times.length * size ≤ i → after.nodes[id]? = before.nodes[id]?)) ∧
      after.nodes.keys = before.nodes.keys ∧ after.edges = before.edges ∧
      (∀ other, other ≠ tenant → v.store.tablesOf other = w.store.tablesOf other) ∧
      v.announced = w.announced ∧ v.guard.isHeld tenant = false := by
  dsimp only
  rcases e.progress_of_recalculate_error halone hstore.wellKeyed hrun with
    ⟨hrefused, -⟩ | ⟨hfree, times, hwhole, hprogress, hanswered⟩
  · -- a refused permit is reported as a conflict
    rw [hrefused] at hinterrupted
    rcases hinterrupted with hdeadline | hcancelled <;> contradiction
  · have hsize := e.one_le_batchSize
    have hnodup := (w.store.tablesOf tenant).nodup_keys_nodes
    rw [Std.ExtTreeMap.length_keys] at hwhole
    refine ⟨times, hwhole, hprogress.ordered, ?_, ?_, ?_, ?_, ?_, ?_⟩
    · intro i id hid
      refine ⟨?_, hprogress.kept_of_le hsize hnodup hid⟩
      intro hi
      obtain ⟨time, htime, hrated⟩ := hprogress.rated_of_lt hsize hnodup hid hi
      refine ⟨⟨time, htime, hrated⟩, ?_⟩
      intro scope' n u hrun'
      obtain ⟨later, hlater⟩ := hanswered scope' n u hrun'
      have hi' : i < (times ++ later).length * e.batchSize :=
        Nat.lt_of_lt_of_le hi (Nat.mul_le_mul_right _ (by simp))
      obtain ⟨time', htime', hrated'⟩ := hlater.rated_of_lt hsize hnodup hid hi'
      -- it is the same batch of either sweep
      rw [List.getElem?_append_left (List.getElem?_eq_some_iff.1 htime).1, htime] at htime'
      rw [hrated, hrated', Option.some.inj htime']
    · rw [hprogress.tablesOf_self, Tables.keys_nodes_refreshEach]
    · rw [hprogress.tablesOf_self, Tables.edges_refreshEach]
    · exact fun other hother => hprogress.tablesOf_of_ne hother
    · rw [hprogress.becomes.announced, List.append_nil]
    · exact Guard.isHeld_eq_false_iff.2 ((hprogress.becomes.holder tenant).trans hfree)

/-! ## A sweep that is late -/

/-- If a full batch is answered and the next one fails, the sweep fails as this one does and has rated
the nodes of the first one, all of them for one time while it ran. -/
theorem recalculate_of_second_error {scope : Scope} {w begun u v : World} {permit : Permit}
    {done : Batch} {f : Fault} (halone : w.conditions.others = []) (hkeyed : w.store.WellKeyed)
    (hfull : e.batchSize ≤ w.store.nodeCount tenant)
    (hpermit : acquire tenant scope w = .ok permit begun)
    (hfirst : Action.transact .readWrite (e.batch tenant none)
      (scope.child begun.clock e.config.sweep.deadlineMillis) begun = .ok done u)
    (hsecond : Action.transact .readWrite (e.batch tenant done.ids.getLast?)
      (scope.child begun.clock e.config.sweep.deadlineMillis) u = .error f v) :
    e.recalculate tenant scope w = .error f (released permit v) ∧
      ∃ time, w.clock ≤ time ∧ u.Since time ∧
        v.store.tablesOf tenant = (w.store.tablesOf tenant).refreshNodes (w.wall time)
          (· ∈ (w.store.tablesOf tenant).nodes.keys.take e.batchSize) := by
  obtain ⟨g, rfl⟩ : ∃ g, begun = { w with guard := g } := by
    unfold acquire at hpermit
    split at hpermit
    · cases hpermit
      exact ⟨_, rfl⟩
    · contradiction
  let begun : World := { w with guard := g }
  obtain ⟨time, rfl, hle, hsince, hu⟩ := @batch_of_ok e tenant none _ begun u halone hkeyed _ hfirst
  have hlength : ¬ ((begun.ahead tenant none).take e.batchSize).length < e.batchSize := by
    have hcount : (begun.ahead tenant none).length = w.store.nodeCount tenant := by
      rw [begun.ahead_none, Std.ExtTreeMap.length_keys]
      rfl
    rw [List.length_take, hcount]
    omega
  have hsize := e.one_le_batchSize
  obtain ⟨more, hmore⟩ : ∃ more,
      w.store.nodeCount tenant + w.conditions.nodesWritten tenant + 1 = more + 2 :=
    ⟨w.store.nodeCount tenant + w.conditions.nodesWritten tenant - 1, by omega⟩
  have hsweep : e.sweep tenant (scope.child w.clock e.config.sweep.deadlineMillis) begun =
      .error f v := by
    show e.sweepFrom tenant (w.store.nodeCount tenant + w.conditions.nodesWritten tenant + 1) none
      _ begun = _
    rw [hmore, sweepFrom, Action.bind_of_ok hfirst, if_neg hlength, sweepFrom]
    exact Action.bind_of_error (Action.bind_of_error hsecond)
  have houtcome : Action.outcome (e.sweeping tenant) scope begun = .ok (.error f) v := by
    unfold Action.outcome
    rw [sweeping_of_error e hsweep]
  refine ⟨?_, time, hle, hsince, ?_⟩
  · rw [recalculate_eq, Action.bind_of_ok hpermit, Action.bind_of_ok houtcome]
    rfl
  · -- nothing is left of the second batch
    have hstill := (e.batch_of_error (hu.conditions ▸ halone) hu.wellKeyed hsecond).1
    rw [hstill.tablesOf_eq (hu.conditions ▸ halone), hu.tables, changedAt_self, begun.ahead_none]

/-- Three nodes of salience zero, which is no score, are rated in batches of two, and to read a page
takes ten milliseconds. Within fifteen of them, the first page is read and its nodes are rated, so
that their salience is their score. The second page is not, and the third node is as it was. -/
theorem interrupted_sweeps_keep_whole_batches_before_a_second_page :
    let e : Engine :=
      { config := { sweep := { batchSize := 2 } }
        nonce := fun _ => [], shuffle := fun _ ids => ids, shuffle_perm := fun _ _ => .refl _ }
    let acme : Tenant := ⟨"acme"⟩
    let relevance : Relevance := { (default : Relevance) with salience := .ofFloat 0.0 }
    let put (tx : Transaction) (id : String) : Transaction :=
      tx.stageNode acme id (.put ⟨id, "concept", id, ⟨[]⟩, none, relevance⟩)
    let tx := put (put (put (Store.begin {} .readWrite).1 "a") "b") "c"
    let w : World :=
      { World.start {} default with
        store := Store.commit {} tx
        conditions := { delay := fun _ r => if r = .nodesAfter then 10 else 0 }
        wall := fun time => .ofMillis time }
    let run := e.recalculate acme ⟨some 15, none⟩ w
    let before := w.store.tablesOf acme
    let after := (finalState run).store.tablesOf acme
    w.store.Reached ∧ fault? run = some .deadlineExceeded ∧ (finalState run).clock = 15 ∧
      before.nodes.keys = ["a", "b", "c"] ∧ after.nodes.keys = ["a", "b", "c"] ∧
      (∃ time ≤ 10, ∀ id ∈ ["a", "b"],
        after.nodes[id]? = before.nodes[id]?.map (·.refreshed (w.wall time)) ∧
        ∀ row, after.nodes[id]? = some row → Relevance.differs row.relevance.salience.toFloat
          (row.relevance.score (w.wall time)) = false) ∧
      (∃ times : List Nat, times.length ≤ 1 ∧ (0 :: times ++ [15]).Pairwise (· ≤ ·) ∧
        (after.nodes["a"]? ≠ before.nodes["a"]? → times.length = 1)) ∧
      after.nodes["c"]? = before.nodes["c"]? ∧
      (finalState run).guard.isHeld acme = false := by
  intro e acme relevance put tx w run before after
  let scope : Scope := ⟨some 15, none⟩
  let c : Conditions := w.conditions
  have hput (tx : Transaction) (id : String) (haccess : tx.access = .readWrite) (h : tx.Made) :
      (put tx id).Made := h.putNode haccess acme ⟨id, "concept", id, ⟨[]⟩, none, relevance⟩
  have hmade : tx.Made := hput _ _ rfl (hput _ _ rfl (hput _ _ rfl (.begun {} .readWrite)))
  have hstore : w.store.Reached := .committed (.empty rfl) hmade rfl
  have hkeys : before.nodes.keys = ["a", "b", "c"] := by decide +kernel
  have hfree : w.guard.holder? acme = none := by
    simp [w, World.start, Guard.ofConfig, Guard.holder?]
  obtain ⟨g, hpermit, -⟩ := acquire_apply_of_free hfree scope
  let begun : World := { w with guard := g }
  obtain ⟨done, u, hfirst, hu⟩ := @answers_transact_batch acme e scope c 0 10 (fun _ _ => rfl)
    (fun _ _ => rfl) rfl (fun _ hnow => Scope.check_of_lt_deadline (by omega)) none begun ⟨rfl, rfl⟩
  -- the second page is asked for at ten, and would be there at twenty
  have hsecond : ∀ cursor, ∃ v, Action.transact .readWrite (e.batch acme cursor) scope u =
      .error .deadlineExceeded v ∧ v.clock = 15 := by
    intro cursor
    obtain ⟨store, conditions, served, clock, wall, guard, announced, draws⟩ := u
    obtain rfl : conditions = c := hu.conditions
    obtain rfl : clock = 10 := hu.clock
    exact ⟨_, rfl, rfl⟩
  obtain ⟨v, hsecond, hclock⟩ := hsecond done.ids.getLast?
  have hfull : e.batchSize ≤ w.store.nodeCount acme := by decide +kernel
  obtain ⟨hrun, time, -, hsince, htables⟩ := e.recalculate_of_second_error rfl hstore.wellKeyed
    hfull hpermit hfirst hsecond
  have hafter : after = before.refreshNodes (w.wall time) (· ∈ ["a", "b"]) := by
    have hpage : before.nodes.keys.take e.batchSize = ["a", "b"] := congrArg (List.take 2) hkeys
    rw [← hpage, ← htables]
    show (finalState (e.recalculate acme scope w)).store.tablesOf acme = _
    rw [hrun]
    rfl
  have hrated : ∀ id ∈ ["a", "b"],
      after.nodes[id]? = before.nodes[id]?.map (·.refreshed (w.wall time)) := by
    intro id hid
    rw [hafter, Tables.getElem?_nodes_refreshNodes]
    simp only [decide_eq_true hid, if_true]
  have hfault : fault? run = some .deadlineExceeded := congrArg fault? hrun
  have hend : (finalState run).clock = 15 :=
    (congrArg (fun r => (finalState r).clock) hrun).trans hclock
  obtain ⟨times, hlength, hordered, hnodes, hsame, -, -, -, hreleased⟩ :=
    interrupted_sweeps_keep_whole_batches e acme scope hstore rfl (.inl rfl)
      (eq_error_of_fault? hfault)
  have hsize : before.nodes.size = 3 := by
    rw [← Std.ExtTreeMap.length_keys, hkeys]
    rfl
  have hone : times.length ≤ 1 := by
    have hwhole : times.length * 2 ≤ 3 := hsize ▸ hlength
    omega
  have hsoon : time ≤ 10 := Nat.le_trans hsince (Nat.le_of_eq hu.clock)
  refine ⟨hstore, hfault, hend, hkeys, hsame.trans hkeys, ⟨time, hsoon, ?_⟩,
    ⟨times, hone, hend ▸ hordered, ?_⟩, ?_, hreleased⟩
  · intro id hid
    refine ⟨hrated id hid, ?_⟩
    intro row hrow
    rw [hrated id hid] at hrow
    obtain ⟨found, -, rfl⟩ := Option.map_eq_some_iff.1 hrow
    exact found.not_differs_refreshed _
  · intro hchanged
    by_contra hnone
    have hkept : times.length * 2 ≤ 0 := by omega
    exact hchanged ((hnodes 0 "a" (by rw [hkeys]; rfl)).2 hkept)
  · have hbehind : times.length * 2 ≤ 2 := by omega
    exact (hnodes 2 "c" (by rw [hkeys]; rfl)).2 hbehind

end Engine

end SalientGraph
