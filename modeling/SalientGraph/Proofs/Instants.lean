import SalientGraph.Proofs.Sweeps
import SalientGraph.Proofs.Verdicts

/-!
# Calls at one instant

Calls that change salience, made one after another at one point in time. What they do to
an entry commutes, and what each of them comes to does not depend on what the others have
done. So the order of the calls makes no difference, neither to the graphs that they leave
nor to which of them fail, and why.
-/

namespace SalientGraph

variable {α β : Type}

/-! ## Sweeps at rest -/

namespace Tables

variable {t : Tables} {now : Timestamp}

/-- The tables after some nodes have been rated anew. -/
def refreshNodes (now : Timestamp) (asked : String → Bool) (t : Tables) : Tables :=
  t.touch now (fun id => if asked id then .refresh else .leave) fun _ => .leave

/-- It does not matter how entries would be touched that are not there. -/
theorem touch_congr {node node' : String → Touch} {edge edge' : EdgeKey → Touch}
    (hnode : ∀ id ∈ t.nodes, node id = node' id) (hedge : ∀ key ∈ t.edges, edge key = edge' key) :
    t.touch now node edge = t.touch now node' edge' := by
  apply ext_getElem?
  · intro id
    rw [getElem?_nodes_touch, getElem?_nodes_touch]
    cases hrow : t.nodes[id]? with
    | none => rfl
    | some row => rw [hnode id (Std.ExtTreeMap.mem_iff_isSome_getElem?.2 (by rw [hrow]; rfl))]
  · intro key
    rw [getElem?_edges_touch, getElem?_edges_touch]
    cases hrow : t.edges[key]? with
    | none => rfl
    | some row => rw [hedge key (Std.ExtTreeMap.mem_iff_isSome_getElem?.2 (by rw [hrow]; rfl))]

@[simp] theorem keys_nodes_touch (node : String → Touch) (edge : EdgeKey → Touch) (t : Tables) :
    (t.touch now node edge).nodes.keys = t.nodes.keys :=
  Std.ExtTreeMap.keys_map

/-- A batch rates the nodes of its page anew. -/
theorem WellKeyed.applyEach_stale (h : t.WellKeyed) (cursor : Option String) (limit : Nat) :
    Write.applyEach ((Rating.stale now (t.view.nodesAfter cursor limit)).map Rating.write) t =
      t.refreshNodes now (· ∈ page t.nodes.keys cursor limit) := by
  rw [← h.map_id_nodesAfter cursor limit]
  apply (h.fit_stale now cursor limit).applyEach_eq_touch
  · intro r hr
    obtain ⟨row, hrow, rfl⟩ := List.mem_map.1 hr
    obtain ⟨hmem, hfresh⟩ := List.mem_filter.1 hrow
    obtain ⟨fresh, hfresh⟩ := Option.isSome_iff_exists.1 hfresh
    have hscored : Touch.refresh.act now row.relevance = row.relevance.scoredAt now := by
      rw [Touch.act, hfresh, Option.getD_some, Relevance.eq_scoredAt_of_refreshed? hfresh]
    rw [Rating.rated_eq, if_pos (decide_eq_true (List.mem_map_of_mem hmem))]
    exact congrArg (fun r => { row with relevance := r }) hscored.symm
  · intro id row hrow hothers
    split
    · rename_i hid
      obtain ⟨listed, hlisted, rfl⟩ := List.mem_map.1 (of_decide_eq_true hid)
      obtain rfl : row = listed := by
        rw [h.found_of_mem_nodesAfter hlisted] at hrow
        exact (Option.some.inj hrow).symm
      -- a node of the page that is not written has its score
      cases hfresh : row.relevance.refreshed? now with
      | none => rw [Touch.act, hfresh, Option.getD_none]
      | some fresh =>
          exact (hothers _ (List.mem_map_of_mem (List.mem_filter.2 ⟨hlisted, by rw [hfresh]; rfl⟩))
            rfl).elim
    · rfl
  · exact fun _ => rfl

/-- What is on the page and what is behind its last node is all that is behind the cursor. -/
theorem refreshNodes_page_of_full {cursor : Option String} {limit : Nat} {last : String}
    (hlast : (page t.nodes.keys cursor limit).getLast? = some last) :
    (t.refreshNodes now (· ∈ page t.nodes.keys cursor limit)).refreshNodes now
        (isAfter (some last)) = t.refreshNodes now (isAfter cursor) := by
  have hsorted := t.pairwise_keys_nodes
  have hmem : last ∈ page t.nodes.keys cursor limit := List.mem_of_getLast? hlast
  unfold refreshNodes
  apply ext_getElem?
  · intro id
    simp only [getElem?_nodes_touch, Option.map_map]
    cases hrow : t.nodes[id]? with
    | none => rfl
    | some row =>
        by_cases hid : id ∈ page t.nodes.keys cursor limit
        · have hafter : isAfter cursor id = true := after_cursor_of_mem_page hid
          have hdone : ¬ isAfter (some last) id = true := by
            rw [isAfter_some]
            intro hlt
            rcases eq_or_lt_of_getLast? (hsorted.sublist page_sublist) hlast hid with rfl | hgt
            · exact String.lt_irrefl id hlt
            · exact String.lt_irrefl id (String.lt_trans hgt hlt)
          rw [if_pos (decide_eq_true hid), if_neg hdone, if_pos hafter]
          rfl
        · have hsame : isAfter (some last) id = isAfter cursor id := by
            rw [Bool.eq_iff_iff]
            constructor
            · intro hlt
              exact isAfter_of_lt (after_cursor_of_mem_page hmem) ((isAfter_some last id).1 hlt)
            · intro hafter
              have hthere : id ∈ t.nodes :=
                Std.ExtTreeMap.mem_iff_isSome_getElem?.2 (by rw [hrow]; rfl)
              rcases mem_page_or_full hsorted (Std.ExtTreeMap.mem_keys.2 hthere) hafter with
                hpage | ⟨_, hbefore⟩
              · exact absurd hpage hid
              · exact (isAfter_some last id).2 (hbefore last hmem)
          rw [if_neg fun h => hid (of_decide_eq_true h), hsame]
          rfl
  · intro key
    simp only [getElem?_edges_touch, Option.map_map]
    rfl

/-- If the page is short, it is all that is behind the cursor. -/
theorem refreshNodes_page_of_short {cursor : Option String} {limit : Nat}
    (hshort : (page t.nodes.keys cursor limit).length < limit) :
    t.refreshNodes now (· ∈ page t.nodes.keys cursor limit) =
      t.refreshNodes now (isAfter cursor) := by
  apply touch_congr
  · intro id hid
    congr 1
    rw [decide_eq_true_iff]
    apply propext
    constructor
    · exact after_cursor_of_mem_page
    · intro hafter
      rcases mem_page_or_full t.pairwise_keys_nodes (Std.ExtTreeMap.mem_keys.2 hid) hafter with
        hmem | ⟨hfull, _⟩
      · exact hmem
      · exact absurd hfull (Nat.ne_of_lt hshort)
  · exact fun _ _ => rfl

end Tables

namespace Engine

open SalientGraph.Action (bind_of_ok bind_of_error transact_of_rests)

variable (e : Engine) {tenant : Tenant} {scope : Scope} {now : Timestamp} {w : World}

/-- At rest, a sweep with enough batches rates all nodes behind its cursor anew. -/
theorem sweepFrom_of_rests (more : Nat) :
    ∀ {cursor : Option String} {w : World}, w.Rests scope now → w.store.WellKeyed →
      (w.store.tablesOf tenant).nodes.keys.countP (isAfter cursor) < more →
      ∃ batches u, e.sweepFrom tenant more cursor scope w = .ok batches u ∧
        w.Becomes (changedAt tenant (Tables.refreshNodes now (isAfter cursor)) w.store.tablesOf) []
          u ∧ u.Rests scope now := by
  induction more with
  | zero =>
      intro cursor w _ _ hleft
      contradiction
  | succ more ih =>
      intro cursor w hw hkeyed hleft
      let t := w.store.tablesOf tenant
      let ids := page t.nodes.keys cursor e.batchSize
      have hids : (t.view.nodesAfter cursor e.batchSize).map Node.id = ids :=
        (hkeyed tenant).map_id_nodesAfter cursor _
      have hstill : Session.stillness.Obeys (Script.batch e tenant cursor).run := by
        rw [Script.run_batch]
        exact (TxAction.editable_stillness tenant).batch e cursor
      have htransact := transact_of_rests (Script.settled_batch e tenant cursor) hstill hw hkeyed
      rw [Script.eval_batch e cursor (hkeyed tenant),
        Write.applyEachAt_eq_changedAt ((hkeyed tenant).applyEach_stale cursor _), hids]
        at htransact
      obtain ⟨u, hrun, hu, hrests⟩ := htransact
      rw [Script.sweepFrom_succ_eq, bind_of_ok hrun]
      dsimp only
      split
      · rename_i hshort
        rw [changedAt_congr (Tables.refreshNodes_page_of_short hshort)] at hu
        exact ⟨_, u, rfl, hu, hrests⟩
      · rename_i hfull
        have hsome : ids ≠ [] := by
          intro hnone
          have hlength : ¬ ids.length < e.batchSize := hfull
          rw [hnone] at hlength
          exact hlength e.one_le_batchSize
        obtain ⟨last, hlast⟩ : ∃ last, ids.getLast? = some last :=
          ⟨_, List.getLast?_eq_some_getLast hsome⟩
        have hmem : last ∈ ids := List.mem_of_getLast? hlast
        have hkeys : (u.store.tablesOf tenant).nodes.keys = t.nodes.keys := by
          rw [hu.tables, changedAt_self]
          exact Tables.keys_nodes_touch _ _ t
        have hless : (u.store.tablesOf tenant).nodes.keys.countP (isAfter (some last)) < more := by
          rw [hkeys]
          exact Nat.lt_of_lt_of_le (countP_isAfter_lt (page_sublist.subset hmem)
            (after_cursor_of_mem_page hmem)) (Nat.le_of_lt_succ hleft)
        obtain ⟨batches, v, hrest, hv, hrests'⟩ := ih hrests hu.wellKeyed hless
        rw [hlast, bind_of_ok hrest]
        refine ⟨_, v, rfl, ?_, hrests'⟩
        have htables : u.store.tablesOf = changedAt tenant _ w.store.tablesOf := funext hu.tables
        have hboth : changedAt tenant (Tables.refreshNodes now (isAfter (some last)) ∘
              Tables.refreshNodes now (· ∈ ids)) w.store.tablesOf =
            changedAt tenant (Tables.refreshNodes now (isAfter cursor)) w.store.tablesOf :=
          changedAt_congr (Tables.refreshNodes_page_of_full hlast)
        rw [htables, changedAt_changedAt, hboth] at hv
        exact hu.trans hv

/-- Once a permit has gone back, the guard is as it was before it was taken. -/
theorem becomes_released {g : Guard} {graphs : Tenant → Tables} {events : List ChangeEvent}
    {u : World} (hfree : w.guard.holder? tenant = none)
    (hholder : ∀ other, g.holder? other =
      if other = tenant then some w.guard.issued else w.guard.holder? other)
    (h : World.Becomes { w with guard := g } graphs events u) :
    w.Becomes graphs events (released ⟨tenant, w.guard.issued⟩ u) := by
  have htaken : u.guard.holder? tenant = some w.guard.issued := by
    rw [h.holder tenant, hholder tenant, if_pos rfl]
  refine ⟨h.conditions, h.wall, h.announced, ?_, h.tables, h.wellKeyed⟩
  intro other
  by_cases hother : other = tenant
  · rw [hother, holder?_released htaken, hfree]
  · show (u.guard.release ⟨tenant, w.guard.issued⟩ u.clock).holder? other = _
    rw [Guard.holder?_release, if_neg fun h => hother h.1, h.holder other, hholder other,
      if_neg hother]

/-- A sweep over a tenant is refused while another one is under way, or it rates all nodes anew. -/
theorem ends_recalculate (hw : w.Pauses now) (hkeyed : w.store.WellKeyed) {held : Bool}
    (hheld : held = (w.guard.holder? tenant).isSome) :
    EndsWith (e.judges held tenant scope w.clock (w.store.tablesOf tenant) .recalculate)
      (e.changes now held tenant scope w.clock .recalculate w.store.tablesOf) w
      (e.recalculate tenant scope w) := by
  unfold judges changes admits
  cases hholder : w.guard.holder? tenant with
  | some n =>
      have htaken : (w.guard.holder? tenant).isSome = true := by rw [hholder]; rfl
      rw [hheld, htaken, recalculate_eq, bind_of_error (acquire_apply_of_held htaken scope)]
      exact ⟨rfl, [], (World.Still.refl w).becomes hw.alone hkeyed⟩
  | none =>
      rw [hheld, hholder]
      obtain ⟨g, hissued, hrecalculate⟩ := recalculate_of_free e hholder
      rw [(hrecalculate scope).2]
      let v : World := { w with guard := g }
      let within := scope.child w.clock e.config.sweep.deadlineMillis
      show EndsWith (within.check w.clock >>= fun _ => _) _ w _
      cases hlive : within.check w.clock with
      | error f =>
          have hcheck : Action.check within v = .error f v := by
            unfold Action.check
            rw [hlive]
          rw [sweeping_of_error e (bind_of_error (bind_of_error hcheck))]
          exact ⟨rfl, [], becomes_released hholder hissued
            ((World.Still.refl v).becomes hw.alone hkeyed)⟩
      | ok _ =>
          have hrests : v.Rests within now := ⟨⟨hw.failure, hw.delay, hlive⟩, hw.alone, hw.today⟩
          have hleft : (v.store.tablesOf tenant).nodes.keys.countP (isAfter none) <
              v.store.nodeCount tenant + v.conditions.nodesWritten tenant + 1 := by
            apply Nat.lt_succ_of_le
            apply List.countP_le_length.trans
            rw [Std.ExtTreeMap.length_keys]
            exact Nat.le_add_right _ _
          obtain ⟨batches, u, hsweep, hu, _⟩ := e.sweepFrom_of_rests _ hrests hkeyed hleft
          rw [sweeping_of_ok e hsweep]
          exact ⟨rfl, _, becomes_released hholder hissued hu.announce⟩

/-! ## One call -/

/-- To put an answer in another form changes neither the fault nor the graphs. -/
theorem EndsWith.map {verdict : Except Fault Unit} {graphs : Tenant → Tables} {act : Action α}
    (h : EndsWith verdict graphs w (act scope w)) (form : α → β) :
    EndsWith verdict graphs w ((act >>= fun a => pure (form a)) scope w) := by
  refine ⟨?_, ?_⟩
  · rw [← h.fault]
    cases hrun : act scope w with
    | ok a v => rw [bind_of_ok hrun]; rfl
    | error f v => rw [bind_of_error hrun]; rfl
  · rw [finalState_map]
    exact h.becomes

/-- At rest, a call that changes salience ends as it is judged. -/
theorem ends_perform (hw : w.Pauses now) (hkeyed : w.store.WellKeyed) {call : Call}
    (hcall : call.isRating = true) :
    let held := (w.guard.holder? tenant).isSome
    EndsWith (e.judges held tenant scope w.clock (w.store.tablesOf tenant) call)
      (e.changes now held tenant scope w.clock call w.store.tablesOf) w
      (e.perform tenant call scope w) := by
  intro held
  cases call with
  | boostNode id => exact (e.ends_boostNode hw hkeyed id held).map Call.Answer.node
  | boostEdge key => exact (e.ends_boostEdge hw hkeyed key held).map Call.Answer.edge
  | supersedeNode old new => exact (e.ends_supersedeNode hw hkeyed old new held).map Call.Answer.node
  | recordAccess ids => exact (e.ends_recordAccess hw hkeyed ids held).map Call.Answer.nodes
  | recalculate => exact (e.ends_recalculate hw hkeyed rfl).map Call.Answer.changed
  | createNode | createEdge | getNode | getEdge | removeNode | removeEdge | neighbors | traverse
  | context | shortestPath | fullTextSearch | semanticSearch | hybridSearch => contradiction

end Engine

/-- The call is made on a certain day, and the store neither fails nor takes any time. -/
structure Occasion.AtRest (now : Timestamp) (o : Occasion) : Prop where
  failure : ∀ served r, o.conditions.failure served r = none
  delay : ∀ served r, o.conditions.delay served r = 0
  today : o.wall o.clock = now

theorem Occasion.AtRest.pauses {now : Timestamp} {o : Occasion} (h : o.AtRest now) (w : World) :
    (w.arrive o).Pauses now :=
  ⟨h.failure, h.delay, o.alone, h.today⟩

/-! ## Series of calls -/

/-- The same entries are there, with the same payloads. -/
structure Tables.Alike (s t : Tables) : Prop where
  nodes : ∀ id : String, s.nodes[id]?.map Node.properties = t.nodes[id]?.map Node.properties
  edges : ∀ key : EdgeKey, s.edges[key]?.map Edge.properties = t.edges[key]?.map Edge.properties

namespace Tables.Alike

variable {s t : Tables}

theorem refl (t : Tables) : t.Alike t :=
  ⟨fun _ => rfl, fun _ => rfl⟩

/-- However entries are touched, they stay there and keep their payloads. -/
theorem touch (t : Tables) (now : Timestamp) (node : String → Touch) (edge : EdgeKey → Touch) :
    (t.touch now node edge).Alike t := by
  constructor
  · intro id
    rw [Tables.getElem?_nodes_touch, Option.map_map]
    rfl
  · intro key
    rw [Tables.getElem?_edges_touch, Option.map_map]
    rfl

theorem requireNode_eq (h : s.Alike t) (id : String) : s.requireNode id = t.requireNode id := by
  have hid := congrArg Option.isSome (h.nodes id)
  rw [Option.isSome_map, Option.isSome_map] at hid
  unfold Tables.requireNode
  rw [Std.ExtTreeMap.contains_eq_isSome_getElem?, Std.ExtTreeMap.contains_eq_isSome_getElem?, hid]

theorem requireEdge_eq (h : s.Alike t) (key : EdgeKey) :
    s.requireEdge key = t.requireEdge key := by
  have hkey := congrArg Option.isSome (h.edges key)
  rw [Option.isSome_map, Option.isSome_map] at hkey
  unfold Tables.requireEdge
  rw [Std.ExtTreeMap.contains_eq_isSome_getElem?, Std.ExtTreeMap.contains_eq_isSome_getElem?, hkey]

/-- The same payloads are opened. -/
theorem opened_eq (h : s.Alike t) (call : Call) : call.opened s = call.opened t := by
  have hfilter : ∀ ids : List String, (ids.filterMap (s.nodes[·]?)).map Node.properties =
      (ids.filterMap (t.nodes[·]?)).map Node.properties := by
    intro ids
    rw [List.map_filterMap, List.map_filterMap]
    exact congrArg (List.filterMap · ids) (funext h.nodes)
  have hnode : ∀ id : String, (s.nodes[id]?).toList.map Node.properties =
      (t.nodes[id]?).toList.map Node.properties := by
    intro id
    rw [← Option.toList_map, h.nodes, Option.toList_map]
  cases call with
  | boostNode id => exact hnode id
  | supersedeNode old new => exact hnode old
  | boostEdge key =>
      show (s.edges[key]?).toList.map Edge.properties = (t.edges[key]?).toList.map Edge.properties
      rw [← Option.toList_map, h.edges, Option.toList_map]
  | recordAccess ids => exact hfilter (distinct ids)
  | createNode | createEdge | getNode | getEdge | removeNode | removeEdge | neighbors | traverse
  | context | shortestPath | fullTextSearch | semanticSearch | hybridSearch | recalculate => rfl

end Tables.Alike

namespace Engine

variable (e : Engine) {now : Timestamp}

/-- A call is admitted or not, however salient the entries are. -/
theorem admits_congr {s t : Tables} (h : s.Alike t) (held : Bool) (tenant : Tenant) (scope : Scope)
    (clock : Nat) (call : Call) :
    e.admits held tenant scope clock s call = e.admits held tenant scope clock t call := by
  cases call with
  | boostNode id => simp only [admits, h.requireNode_eq]
  | boostEdge key => simp only [admits, h.requireEdge_eq]
  | supersedeNode old new => simp only [admits, h.requireNode_eq]
  | recordAccess | recalculate | createNode | createEdge | getNode | getEdge | removeNode
  | removeEdge | neighbors | traverse | context | shortestPath | fullTextSearch | semanticSearch
  | hybridSearch => rfl

theorem judges_congr {s t : Tables} (h : s.Alike t) (held : Bool) (tenant : Tenant) (scope : Scope)
    (clock : Nat) (call : Call) :
    e.judges held tenant scope clock s call = e.judges held tenant scope clock t call := by
  unfold judges
  rw [e.admits_congr h, h.opened_eq]

/-- A call leaves all entries there. -/
theorem alike_changes (held : Bool) (tenant : Tenant) (scope : Scope) (clock : Nat) (call : Call)
    (graphs : Tenant → Tables) (other : Tenant) :
    (e.changes now held tenant scope clock call graphs other).Alike (graphs other) := by
  unfold changes
  cases e.admits held tenant scope clock (graphs tenant) call with
  | ok _ =>
      dsimp only
      by_cases hother : other = tenant
      · subst hother
        rw [changedAt_self]
        exact .touch _ _ _ _
      · rw [changedAt_of_ne hother]
        exact .refl _
  | error f => exact .refl _

/-- What a call does to the graphs, while the permits of some tenants are held. -/
def stepAt (now : Timestamp) (held : Tenant → Bool) (graphs : Tenant → Tables) (o : Occasion) :
    Tenant → Tables :=
  e.changes now (held o.tenant) o.tenant o.scope o.clock o.call graphs

/-- What a call comes to, while the permits of some tenants are held. -/
def verdictAt (held : Tenant → Bool) (graphs : Tenant → Tables) (o : Occasion) : Option Fault :=
  faultOf (e.judges (held o.tenant) o.tenant o.scope o.clock (graphs o.tenant) o.call)

variable {held : Tenant → Bool}

theorem verdictAt_stepAt (graphs : Tenant → Tables) (o other : Occasion) :
    e.verdictAt held (e.stepAt now held graphs o) other = e.verdictAt held graphs other := by
  unfold verdictAt stepAt
  rw [e.judges_congr (e.alike_changes _ _ _ _ _ graphs other.tenant)]

end Engine

/-- The node that a call marks as superseded, with its tenant. -/
def Occasion.superseded? (o : Occasion) : Option (Tenant × String) :=
  o.call.superseded?.map (o.tenant, ·)

/-- Where no node is superseded twice, no two calls name successors of the same node. -/
theorem Occasion.ne_of_nodup_superseded? {os : List Occasion}
    (h : (os.filterMap superseded?).Nodup) ⦃o o' : Occasion⦄ (ho : o ∈ os) (ho' : o' ∈ os)
    (hne : o ≠ o') (marked : Tenant × String) (hmarked : o.superseded? = some marked) :
    o'.superseded? ≠ some marked := by
  let apart (o o' : Occasion) : Prop :=
    ∀ marked, o.superseded? = some marked → o'.superseded? ≠ some marked
  have hsymm : Std.Symm apart := ⟨fun o o' h marked ho' ho => h marked ho ho'⟩
  have hpairs : os.Pairwise apart := by
    apply (List.pairwise_filterMap.1 h).imp
    intro o o' hpair marked ho ho'
    exact hpair marked ho marked ho' rfl
  exact hpairs.forall ho ho' hne marked hmarked

namespace Engine

variable (e : Engine) {now : Timestamp} {held : Tenant → Bool}

/-- What two calls do commutes, unless they name successors of the same node. -/
theorem stepAt_comm {o o' : Occasion}
    (h : ∀ marked, o.superseded? = some marked → o'.superseded? ≠ some marked)
    (graphs : Tenant → Tables) :
    e.stepAt now held (e.stepAt now held graphs o) o' =
      e.stepAt now held (e.stepAt now held graphs o') o := by
  have hadmits := e.admits_congr
    (@alike_changes e now (held o.tenant) o.tenant o.scope o.clock o.call graphs o'.tenant)
    (held o'.tenant) o'.tenant o'.scope o'.clock o'.call
  have hadmits' := e.admits_congr
    (@alike_changes e now (held o'.tenant) o'.tenant o'.scope o'.clock o'.call graphs
      o.tenant) (held o.tenant) o.tenant o.scope o.clock o.call
  have hcalls : o.tenant = o'.tenant → ∀ t, o'.call.applied now (o.call.applied now t) =
      o.call.applied now (o'.call.applied now t) := by
    intro htenant
    apply Call.applied_comm
    intro id hid hid'
    apply h (o.tenant, id)
    · rw [Occasion.superseded?, hid]
      rfl
    · rw [Occasion.superseded?, hid', htenant]
      rfl
  unfold stepAt
  cases ho : e.admits (held o.tenant) o.tenant o.scope o.clock (graphs o.tenant) o.call with
  | error f =>
      -- what is not admitted does nothing, neither before nor after the other call
      rw [changes_of_error ho, changes_of_error (hadmits'.trans ho)]
  | ok _ =>
      cases ho' : e.admits (held o'.tenant) o'.tenant o'.scope o'.clock (graphs o'.tenant)
          o'.call with
      | error f => rw [changes_of_error (hadmits.trans ho'), changes_of_error ho']
      | ok _ =>
          rw [changes_of_ok (hadmits.trans ho'), changes_of_ok ho,
            changes_of_ok (hadmits'.trans ho), changes_of_ok ho']
          exact changedAt_comm (fun htenant => hcalls htenant.symm) graphs

/-- At rest, serving a call answers as it is judged and changes the graphs as it is told. -/
theorem serve_atRest {o : Occasion} (ho : o.AtRest now) (hcall : o.call.isRating = true)
    {w : World} (hkeyed : w.store.WellKeyed)
    (hheld : ∀ tenant, (w.guard.holder? tenant).isSome = held tenant) :
    faultOf (e.serve o w).1.outcome = e.verdictAt held w.store.tablesOf o ∧
      (e.serve o w).2.store.tablesOf = e.stepAt now held w.store.tablesOf o ∧
      (e.serve o w).2.store.WellKeyed ∧
      ∀ tenant, ((e.serve o w).2.guard.holder? tenant).isSome = held tenant := by
  have hserve := e.serve_eq o w
  have hholder : ∀ tenant, (w.arrive o).guard.holder? tenant = w.guard.holder? tenant :=
    fun tenant => Guard.holder?_elapse _ _ _ tenant
  have hends := @ends_perform e o.tenant o.scope now (w.arrive o) (ho.pauses w) hkeyed _ hcall
  rw [hholder, hheld] at hends
  obtain ⟨events, hbecomes⟩ := hends.becomes
  rw [hserve]
  refine ⟨?_, funext hbecomes.tables, hbecomes.wellKeyed, ?_⟩
  · exact (fault?_eq_faultOf _).symm.trans hends.fault
  · intro tenant
    rw [hbecomes.holder, hholder, hheld]

/-- At rest, each of several calls is judged as in the beginning, and the changes add up. -/
theorem serveAll_atRest (os : List Occasion) :
    ∀ {w : World}, (∀ o ∈ os, o.AtRest now) → (∀ o ∈ os, o.call.isRating = true) →
      w.store.WellKeyed → (∀ tenant, (w.guard.holder? tenant).isSome = held tenant) →
      (e.serveAll os w).1.map (fun reply => faultOf reply.outcome) =
          os.map (e.verdictAt held w.store.tablesOf) ∧
        (e.serveAll os w).2.store.tablesOf = os.foldl (e.stepAt now held) w.store.tablesOf := by
  induction os with
  | nil => exact fun _ _ _ _ => ⟨rfl, rfl⟩
  | cons o os ih =>
      intro w hrest hcalls hkeyed hheld
      obtain ⟨hfault, htables, hkeyed', hheld'⟩ := e.serve_atRest
        (hrest o List.mem_cons_self) (hcalls o List.mem_cons_self) hkeyed hheld
      obtain ⟨hfaults, hlater⟩ := ih (fun o ho => hrest o (List.mem_cons_of_mem _ ho))
        (fun o ho => hcalls o (List.mem_cons_of_mem _ ho)) hkeyed' hheld'
      rw [htables] at hfaults hlater
      refine ⟨?_, hlater⟩
      have hsame : e.verdictAt held (e.stepAt now held w.store.tablesOf o) =
          e.verdictAt held w.store.tablesOf := funext (e.verdictAt_stepAt _ o)
      rw [hsame] at hfaults
      rw [serveAll, List.map_cons, List.map_cons, hfault, hfaults]

/-- Calls that change salience, made one after another at one instant and superseding no node
twice, commute: whatever the order, the graphs in the end are the same, and each call is answered or
fails for the same reason. -/
theorem calls_at_one_instant_commute (now : Timestamp) (w : World) (hstore : w.store.Reached)
    (os : List Occasion)
    (hcalls : ∀ o ∈ os, o.call.isRating = true) (hrest : ∀ o ∈ os, o.AtRest now)
    (hsuccessors : (os.filterMap Occasion.superseded?).Nodup) :
    ∃ (verdict : Occasion → Option Fault) (graphs : Tenant → Tables),
      ∀ os' : List Occasion, os'.Perm os →
        (e.serveAll os' w).1.map (fun reply => faultOf reply.outcome) = os'.map verdict ∧
          (e.serveAll os' w).2.store.tablesOf = graphs := by
  let held : Tenant → Bool := fun tenant => (w.guard.holder? tenant).isSome
  refine ⟨e.verdictAt held w.store.tablesOf, os.foldl (e.stepAt now held) w.store.tablesOf, ?_⟩
  intro os' hperm
  obtain ⟨hfaults, htables⟩ := e.serveAll_atRest os' (fun o ho => hrest o (hperm.subset ho))
    (fun o ho => hcalls o (hperm.subset ho)) hstore.wellKeyed fun tenant => rfl
  refine ⟨hfaults, htables.trans ?_⟩
  symm
  apply hperm.symm.foldl_eq'
  intro o ho o' ho' graphs
  by_cases hsame : o = o'
  · rw [hsame]
  · exact e.stepAt_comm (Occasion.ne_of_nodup_superseded? hsuccessors ho ho' hsame) graphs

/-- Two nodes are boosted, one of them is superseded by the other, accesses are counted, one of them
to a node that is missing, and all is rated anew. -/
theorem calls_at_one_instant_commute_for_two_nodes :
    let e : Engine :=
      { config := {}
        nonce := fun _ => [], shuffle := fun _ ids => ids, shuffle_perm := fun _ _ => .refl _ }
    let put (tx : Transaction) (id : String) : Transaction :=
      tx.stageNode ⟨"acme"⟩ id (.put ⟨id, "person", id, ⟨[]⟩, none, default⟩)
    let store : Store := Store.commit {} (put (put ⟨⟨1⟩, .readWrite, ∅⟩ "a") "b")
    let w : World := { World.start {} default with store := store }
    let occasion (call : Call) : Occasion :=
      ⟨⟨"acme"⟩, call, .unbounded, 0, fun _ => default, 0, 0, {}, rfl⟩
    let os : List Occasion :=
      [.boostNode "a", .supersedeNode "a" "b", .recordAccess ["b", "c", "a"], .recalculate,
        .boostNode "b"].map occasion
    ∃ (verdict : Occasion → Option Fault) (graphs : Tenant → Tables),
      ∀ os' : List Occasion, os'.Perm os →
        (e.serveAll os' w).1.map (fun reply => faultOf reply.outcome) = os'.map verdict ∧
          (e.serveAll os' w).2.store.tablesOf = graphs := by
  intro e put store w occasion os
  have hput : ∀ (tx : Transaction) (id : String), tx.access = .readWrite → tx.Made →
      (put tx id).Made := by
    intro tx id haccess hmade
    have hstage : (Write.putNode ⟨id, "person", id, ⟨[]⟩, none, default⟩).stage {} tx ⟨"acme"⟩ =
        .ok (.done, put tx id) := by
      simp only [Write.stage, Store.putNode, Transaction.checkWritable, haccess]
      rfl
    exact .staged {} _ _ hmade hstage
  have hstore : w.store.Reached :=
    .committed (.empty rfl) (hput _ _ rfl (hput _ _ rfl (.begun {} .readWrite))) rfl
  have hrest : ∀ call, (occasion call).AtRest default := fun _ =>
    ⟨fun _ _ => rfl, fun _ _ => rfl, rfl⟩
  apply calls_at_one_instant_commute e default w hstore os
  · exact List.all_eq_true.1 (rfl : os.all (fun o => o.call.isRating) = true)
  · intro o ho
    obtain ⟨call, _, rfl⟩ := List.mem_map.1 ho
    exact hrest call
  · have hone : os.filterMap Occasion.superseded? = [(⟨"acme"⟩, "a")] := rfl
    rw [hone]
    exact List.nodup_singleton _

end Engine

end SalientGraph
