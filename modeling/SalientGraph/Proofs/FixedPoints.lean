import SalientGraph.Proofs.Progress

/-!
# Fixed points of sweeps

While the calendar stands still, it does not matter which batch a node is rated by. A
sweep that is answered has then rated just those nodes whose salience was not their
score, and no such node is left. Another sweep on the same day has nothing to do.
-/

namespace SalientGraph

/-! ## Tables at one point in time -/

namespace Tables

variable {t : Tables} {now : Timestamp} {size : Nat} {ids : List String} {times : List Timestamp}

/-- The salience of every node is its score. -/
def IsFresh (now : Timestamp) (t : Tables) : Prop :=
  ∀ (id : String) (row : SealedNode), t.nodes[id]? = some row →
    Relevance.differs row.relevance.salience.toFloat (row.relevance.score now) = false

theorem isStale_congr {s : Tables} {id : String} (h : s.nodes[id]? = t.nodes[id]?) :
    s.isStale now id = t.isStale now id := by
  rw [isStale, isStale, h]

/-- The stale nodes are those whose salience is not their score. -/
theorem countP_isStale (now : Timestamp) (t : Tables) :
    t.nodes.keys.countP (t.isStale now) = t.nodes.toList.countP fun entry =>
      Relevance.differs entry.2.relevance.salience.toFloat (entry.2.relevance.score now) := by
  rw [← Std.ExtTreeMap.map_fst_toList_eq_keys, List.countP_map]
  apply List.countP_congr
  intro entry hentry
  rw [Function.comp_apply, isStale, Std.ExtTreeMap.mem_toList_iff_getElem?_eq_some.1 hentry,
    Option.any_some, Relevance.isSome_refreshed?]

namespace IsFresh

variable (h : t.IsFresh now)
include h

theorem isStale_eq_false (id : String) : t.isStale now id = false := by
  unfold isStale
  cases hrow : t.nodes[id]? with
  | none => rfl
  | some row => rw [Option.any_some, Relevance.isSome_refreshed?, h id row hrow]

theorem refreshNodes_eq (asked : String → Bool) : t.refreshNodes now asked = t := by
  apply ext_nodes (edges_refreshNodes now asked t)
  intro id
  rw [getElem?_nodes_refreshNodes]
  cases hrow : t.nodes[id]? with
  | none => rfl
  | some row => rw [Option.map_some, Node.refreshed_of_not_differs (h id row hrow), ite_self]

/-- Batches have nothing to do in tables that are fresh. -/
theorem refreshEach_eq (htimes : ∀ s ∈ times, s = now) :
    ∀ ids : List String, refreshEach size times ids t = t := by
  induction times with
  | nil => exact fun _ => rfl
  | cons s later ih =>
      intro ids
      rw [refreshEach, htimes s List.mem_cons_self, h.refreshNodes_eq]
      exact ih (fun s hs => htimes s (List.mem_cons_of_mem _ hs)) _

theorem staleEach_eq (htimes : ∀ s ∈ times, s = now) :
    ∀ ids : List String, staleEach size times ids t = 0 := by
  induction times with
  | nil => exact fun _ => rfl
  | cons s later ih =>
      intro ids
      rw [staleEach, htimes s List.mem_cons_self, h.refreshNodes_eq,
        ih (fun s hs => htimes s (List.mem_cons_of_mem _ hs)), Nat.add_zero, List.countP_eq_zero]
      intro id _
      rw [h.isStale_eq_false]
      exact Bool.false_ne_true

end IsFresh

/-- Enough batches at one point in time rate each node anew. -/
theorem getElem?_nodes_refreshEach_keys (hsize : 1 ≤ size) (htimes : ∀ s ∈ times, s = now)
    (hcover : t.nodes.keys.length ≤ times.length * size) (id : String) :
    (refreshEach size times t.nodes.keys t).nodes[id]? = t.nodes[id]?.map (·.refreshed now) := by
  by_cases hid : id ∈ t.nodes.keys
  · obtain ⟨i, hi, hplace⟩ := List.getElem_of_mem hid
    have hbatch : i / size < times.length :=
      (Nat.div_lt_iff_lt_mul hsize).2 (Nat.lt_of_lt_of_le hi hcover)
    rw [getElem?_nodes_refreshEach hsize times t t.nodup_keys_nodes
      (List.getElem?_eq_some_iff.2 ⟨hi, hplace⟩), List.getElem?_eq_getElem hbatch,
      htimes _ (List.getElem_mem hbatch)]
    rfl
  · have hnone : t.nodes[id]? = none :=
      Std.ExtTreeMap.getElem?_eq_none fun hmem => hid (Std.ExtTreeMap.mem_keys.2 hmem)
    rw [getElem?_nodes_refreshEach_of_not_mem times t hid, hnone]
    rfl

/-- Enough batches at one point in time come across each stale node once. -/
theorem staleEach_eq_countP (htimes : ∀ s ∈ times, s = now) :
    ∀ {ids : List String} {t : Tables}, ids.Nodup → ids.length ≤ times.length * size →
      staleEach size times ids t = ids.countP (t.isStale now) := by
  induction times with
  | nil =>
      intro ids t _ hcover
      rw [List.length_nil, Nat.zero_mul, Nat.le_zero, List.length_eq_zero_iff] at hcover
      rw [hcover]
      rfl
  | cons s later ih =>
      intro ids t hnodup hcover
      have hsplit : ids.take size ++ ids.drop size = ids := List.take_append_drop size ids
      have hrest : (ids.drop size).length ≤ later.length * size := by
        rw [List.length_cons, Nat.succ_mul] at hcover
        rw [List.length_drop]
        omega
      -- what the first batch does to its own nodes is nothing to the others
      have hsame : (ids.drop size).countP ((t.refreshNodes now (· ∈ ids.take size)).isStale now) =
          (ids.drop size).countP (t.isStale now) := by
        apply List.countP_congr
        intro id hdrop
        have htake : ¬ decide (id ∈ ids.take size) = true := fun hid =>
          List.disjoint_take_drop hnodup (Nat.le_refl _) (of_decide_eq_true hid) hdrop
        rw [isStale_congr]
        rw [getElem?_nodes_refreshNodes]
        simp only [if_neg htake, Option.map_id']
      calc staleEach size (s :: later) ids t
        _ = (ids.take size).countP (t.isStale now) +
              staleEach size later (ids.drop size) (t.refreshNodes now (· ∈ ids.take size)) := by
            rw [staleEach, htimes s List.mem_cons_self]
        _ = (ids.take size).countP (t.isStale now) + (ids.drop size).countP (t.isStale now) := by
            rw [ih (fun s hs => htimes s (List.mem_cons_of_mem _ hs))
              (hnodup.sublist (List.drop_sublist size ids)) hrest, hsame]
        _ = ids.countP (t.isStale now) := by rw [← List.countP_append, hsplit]

end Tables

/-! ## Sweeps on one day -/

namespace Engine

variable (e : Engine)

section
variable {tenant : Tenant} {scope : Scope} {w v : World} (halone : w.conditions.others = [])
  (hkeyed : w.store.WellKeyed) {now : Timestamp} (hnow : ∀ time, w.wall time = now)
include halone hkeyed hnow

/-- An answered sweep counts the stale nodes and rates all nodes anew, in as many batches as it
takes to come to a page that is not full. -/
theorem rated_of_recalculate {n : Nat} (h : e.recalculate tenant scope w = .ok n v) :
    let t := w.store.tablesOf tenant
    n = t.nodes.keys.countP (t.isStale now) ∧
      (∀ id : String,
        (v.store.tablesOf tenant).nodes[id]? = t.nodes[id]?.map (·.refreshed now)) ∧
      (v.store.tablesOf tenant).edges = t.edges ∧
      (∀ other, other ≠ tenant → v.store.tablesOf other = w.store.tablesOf other) ∧
      v.store.WellKeyed ∧ v.guard.isHeld tenant = false ∧
      ∃ permit begun batches swept, acquire tenant scope w = .ok permit begun ∧
        e.sweep tenant (scope.child w.clock e.config.sweep.deadlineMillis) begun =
          .ok batches swept ∧
        batches.flatMap Batch.ids = t.nodes.keys ∧
        batches.length = t.nodes.size / e.batchSize + 1 := by
  dsimp only
  let t := w.store.tablesOf tenant
  let size := e.batchSize
  have hsize : 1 ≤ size := e.one_le_batchSize
  obtain ⟨hfree, times, batches, begun, swept, hacquire, hsweep, rfl, hcompletes, hprogress⟩ :=
    e.progress_of_recalculate halone hkeyed h
  have htimes : ∀ s ∈ times.map w.wall, s = now := by
    intro s hs
    obtain ⟨time, -, rfl⟩ := List.mem_map.1 hs
    exact hnow time
  have hcover : t.nodes.keys.length ≤ (times.map w.wall).length * size := by
    rw [hcompletes.timed, hcompletes.enough, Nat.mul_comm]
    exact Nat.le_of_lt (Nat.lt_mul_div_succ _ hsize)
  refine ⟨?_, ?_, ?_, ?_, hprogress.becomes.wellKeyed, ?_, ?_⟩
  · rw [hcompletes.changed]
    exact Tables.staleEach_eq_countP htimes t.nodup_keys_nodes hcover
  · intro id
    rw [hprogress.tablesOf_self]
    exact Tables.getElem?_nodes_refreshEach_keys hsize htimes hcover id
  · rw [hprogress.tablesOf_self, Tables.edges_refreshEach]
  · exact fun other hother => hprogress.tablesOf_of_ne hother
  · exact Guard.isHeld_eq_false_iff.2 ((hprogress.becomes.holder tenant).trans hfree)
  · refine ⟨_, begun, batches, swept, hacquire, hsweep, hcompletes.looked, ?_⟩
    rw [hcompletes.enough, Std.ExtTreeMap.length_keys]

/-- Over fresh tables, a sweep changes nothing and tells nobody of anything, however it ends. -/
theorem recalculate_of_isFresh (hfresh : (w.store.tablesOf tenant).IsFresh now) :
    let u := finalState (e.recalculate tenant scope w)
    (∀ other, u.store.tablesOf other = w.store.tablesOf other) ∧ u.announced = w.announced ∧
      ∀ n v, e.recalculate tenant scope w = .ok n v → n = 0 := by
  dsimp only
  have htimes : ∀ times : List Nat, ∀ s ∈ times.map w.wall, s = now := by
    intro times s hs
    obtain ⟨time, -, rfl⟩ := List.mem_map.1 hs
    exact hnow time
  have hsame : ∀ {ids : List String} {times : List Nat} {told : List ChangeEvent} {u : World},
      w.Progress tenant e.batchSize ids times told u →
        ∀ other, u.store.tablesOf other = w.store.tablesOf other := by
    intro ids times told u hprogress other
    by_cases hother : other = tenant
    · rw [hother, hprogress.tablesOf_self]
      exact hfresh.refreshEach_eq (htimes times) ids
    · exact hprogress.tablesOf_of_ne hother
  cases hrun : e.recalculate tenant scope w with
  | ok n u =>
      obtain ⟨-, times, batches, -, -, -, -, rfl, hcompletes, hprogress⟩ :=
        e.progress_of_recalculate halone hkeyed hrun
      have hnone : changesIn batches = 0 := by
        rw [hcompletes.changed]
        exact hfresh.staleEach_eq (htimes times) _
      refine ⟨hsame hprogress, ?_, ?_⟩
      · show u.announced = _
        rw [hprogress.becomes.announced, hnone]
        exact List.append_nil _
      · intro m v hok
        cases hok
        exact hnone
  | error f u =>
      refine ⟨?_, ?_, fun m v hok => by contradiction⟩ <;>
        rcases e.progress_of_recalculate_error halone hkeyed hrun with
          ⟨-, rfl⟩ | ⟨-, times, -, hprogress, -⟩
      · exact fun _ => rfl
      · exact hsame hprogress
      · rfl
      · exact hprogress.becomes.announced.trans (List.append_nil _)

end

/-- While the calendar stands still and nobody else commits anything, the answer of a sweep is the
number of nodes whose salience is not their score. Just these have been given their score and the
time of it, nothing else has changed, and the salience of every node is its score. The batches have
come to each node once, and there is one more of them than full ones fit the nodes. Their size makes
no difference to the answer and to what is left. Another sweep changes nothing, and its answer is
zero if there is one, as there is where the store neither fails nor takes any time. -/
theorem answered_sweeps_reach_a_fixed_point (tenant : Tenant) (scope : Scope) {w v : World}
    (hstore : w.store.Reached) (halone : w.conditions.others = [])
    (now : Timestamp) (hnow : ∀ time, w.wall time = now) {n : Nat}
    (hrun : e.recalculate tenant scope w = .ok n v) :
    let before := w.store.tablesOf tenant
    let after := v.store.tablesOf tenant
    let stale (row : SealedNode) : Bool :=
      Relevance.differs row.relevance.salience.toFloat (row.relevance.score now)
    n = before.nodes.toList.countP (fun entry => stale entry.2) ∧
      (∀ id : String, after.nodes[id]? = before.nodes[id]?.map fun row =>
        if stale row then
          { row with
            relevance :=
              { row.relevance with
                salience := .ofFloat (row.relevance.score now)
                updatedAt := now } }
        else row) ∧
      after.edges = before.edges ∧
      (∀ other, other ≠ tenant → v.store.tablesOf other = w.store.tablesOf other) ∧
      (∀ (id : String) (row : SealedNode), after.nodes[id]? = some row → stale row = false) ∧
      v.guard.isHeld tenant = false ∧
      (∃ permit begun batches swept, acquire tenant scope w = .ok permit begun ∧
        e.sweep tenant (scope.child w.clock e.config.sweep.deadlineMillis) begun =
          .ok batches swept ∧
        batches.flatMap Batch.ids = before.nodes.keys ∧
        batches.length = before.nodes.size / e.batchSize + 1) ∧
      (∀ (e' : Engine) (scope' : Scope) (m : Nat) (u : World),
        e'.recalculate tenant scope' w = .ok m u →
        m = n ∧ ∀ other, u.store.tablesOf other = v.store.tablesOf other) ∧
      ∀ (scope' : Scope) (w' : World), w'.store = v.store → w'.conditions.others = [] →
        (∀ time, w'.wall time = now) →
        let again := e.recalculate tenant scope' w'
        (∀ other, (finalState again).store.tablesOf other = v.store.tablesOf other) ∧
          (finalState again).announced = w'.announced ∧ (∀ m u, again = .ok m u → m = 0) ∧
          (w'.guard.isHeld tenant = false →
            w'.Calm (scope'.child w'.clock e.config.sweep.deadlineMillis) →
            ∃ u, again = .ok 0 u) := by
  dsimp only
  obtain ⟨hcount, hnodes, hedges, hothers, hkeyed, hfree, hbatches⟩ :=
    e.rated_of_recalculate halone hstore.wellKeyed hnow hrun
  have hfresh : (v.store.tablesOf tenant).IsFresh now := by
    intro id row hrow
    rw [hnodes] at hrow
    obtain ⟨found, -, rfl⟩ := Option.map_eq_some_iff.1 hrow
    exact found.not_differs_refreshed now
  refine ⟨hcount.trans (Tables.countP_isStale now _), ?_, hedges, hothers, hfresh, hfree, hbatches,
    ?_, ?_⟩
  · intro id
    rw [hnodes]
    congr 1
    funext row
    exact row.refreshed_eq now
  · -- of a sweep in batches of another size the same has been said, and its size was not mentioned
    intro e' scope' m u hrun'
    obtain ⟨hcount', hnodes', hedges', hothers', -⟩ :=
      e'.rated_of_recalculate halone hstore.wellKeyed hnow hrun'
    refine ⟨hcount'.trans hcount.symm, ?_⟩
    intro other
    by_cases hother : other = tenant
    · rw [hother]
      exact Tables.ext_nodes (hedges'.trans hedges.symm) fun id =>
        (hnodes' id).trans (hnodes id).symm
    · rw [hothers other hother, hothers' other hother]
  · -- the sweep before has left fresh tables, which is all that matters about it
    intro scope' w' hsame halone' hnow'
    obtain ⟨htables, htold, hzero⟩ :=
      @recalculate_of_isFresh e tenant scope' w' halone' (hsame ▸ hkeyed) now hnow'
        (hsame ▸ hfresh)
    refine ⟨fun other => (htables other).trans (by rw [hsame]), htold, hzero, ?_⟩
    intro hfree' hcalm
    obtain ⟨m, u, hok⟩ := e.recalculate_answers hcalm (Guard.isHeld_eq_false_iff.1 hfree')
    rw [hzero m u hok] at hok
    exact ⟨u, hok⟩

/-- Two nodes fill a page, so that a sweep over them makes a second batch, to which nothing is left.
After that, another sweep has nothing to do. -/
theorem answered_sweeps_reach_a_fixed_point_behind_a_full_page :
    let e : Engine :=
      { config := { sweep := { batchSize := 2 } }
        nonce := fun _ => [], shuffle := fun _ ids => ids, shuffle_perm := fun _ _ => .refl _ }
    let put (tx : Transaction) (id : String) : Transaction :=
      tx.stageNode ⟨"acme"⟩ id (.put ⟨id, "concept", id, ⟨[]⟩, none, default⟩)
    let tx := put (put (Store.begin {} .readWrite).1 "a") "b"
    let w : World := { World.start {} (.ofMillis 60000) with store := Store.commit {} tx }
    let stale (row : SealedNode) : Bool :=
      Relevance.differs row.relevance.salience.toFloat (row.relevance.score (.ofMillis 60000))
    w.store.Reached ∧ w.conditions.others = [] ∧ (∀ time, w.wall time = .ofMillis 60000) ∧
      ∃ n v, e.recalculate ⟨"acme"⟩ .unbounded w = .ok n v ∧
        n = (w.store.tablesOf ⟨"acme"⟩).nodes.toList.countP (fun entry => stale entry.2) ∧
        (∃ row, (v.store.tablesOf ⟨"acme"⟩).nodes["b"]? = some row ∧ stale row = false) ∧
        (∃ begun batches swept,
          e.sweep ⟨"acme"⟩ (Scope.unbounded.child w.clock e.config.sweep.deadlineMillis) begun =
            .ok batches swept ∧
          batches.flatMap Batch.ids = ["a", "b"] ∧ batches.length = 2) ∧
        ∃ u, e.recalculate ⟨"acme"⟩ .unbounded { w with store := v.store } = .ok 0 u := by
  intro e put tx w stale
  have hput (tx : Transaction) (id : String) (haccess : tx.access = .readWrite) (h : tx.Made) :
      (put tx id).Made := h.putNode haccess ⟨"acme"⟩ ⟨id, "concept", id, ⟨[]⟩, none, default⟩
  have hmade : tx.Made := hput _ _ rfl (hput _ _ rfl (.begun {} .readWrite))
  have hstore : w.store.Reached := .committed (.empty rfl) hmade rfl
  have hcalm : w.Calm (Scope.unbounded.child w.clock e.config.sweep.deadlineMillis) :=
    ⟨fun _ _ => rfl, fun _ _ => rfl, rfl⟩
  have hunheld : w.guard.isHeld ⟨"acme"⟩ = false := by decide +kernel
  obtain ⟨n, v, hrun⟩ := e.recalculate_answers hcalm (Guard.isHeld_eq_false_iff.1 hunheld)
  obtain ⟨hcount, hnodes, -, -, hfresh, -, ⟨_, begun, batches, swept, -, hsweep, hids, hlength⟩, -,
    hagain⟩ := answered_sweeps_reach_a_fixed_point e ⟨"acme"⟩ .unbounded hstore rfl
      (.ofMillis 60000) (fun _ => rfl) hrun
  have hthere : ((w.store.tablesOf ⟨"acme"⟩).nodes["b"]?).isSome = true := by decide +kernel
  obtain ⟨found, hfound⟩ := Option.isSome_iff_exists.1 hthere
  have hrated := hnodes "b"
  rw [hfound] at hrated
  have hkeys : (w.store.tablesOf ⟨"acme"⟩).nodes.keys = ["a", "b"] := by decide +kernel
  have hsize : (w.store.tablesOf ⟨"acme"⟩).nodes.size = 2 := by decide +kernel
  refine ⟨hstore, rfl, fun _ => rfl, n, v, hrun, hcount, ⟨_, hrated, hfresh "b" _ hrated⟩,
    ⟨begun, batches, swept, hsweep, hids.trans hkeys, ?_⟩, ?_⟩
  · rw [hlength, hsize]
    show 2 / 2 + 1 = 2
    rfl
  · exact (hagain .unbounded { w with store := v.store } rfl rfl fun _ => rfl).2.2.2 hunheld
      ⟨fun _ _ => rfl, fun _ _ => rfl, rfl⟩

end Engine

end SalientGraph
