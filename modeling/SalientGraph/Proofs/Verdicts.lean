import SalientGraph.Proofs.Announcements
import SalientGraph.Proofs.Evaluation
import SalientGraph.Proofs.Touches

/-!
# What calls come to at rest

Calls that change salience, made while the store neither fails nor takes any time and
nobody else uses it. What such a call comes to depends on which entries there are and on
their payloads, not on how salient they are: it is judged here without a run. If the
call is admitted, it touches the entries that it names and leaves all else alone.
-/

namespace SalientGraph

variable {α β : Type}

/-! ## Ratings as touches -/

/-- Ratings of some nodes touch these, if all others stay as they are. -/
theorem Rating.Fit.applyEach_eq_touch {now : Timestamp} {rs : List Rating} {t : Tables}
    (h : Fit t rs) {node : String → Touch} {edge : EdgeKey → Touch}
    (hrated : ∀ r ∈ rs, r.rated = r.row.mapRelevance ((node r.row.id).act now))
    (hothers : ∀ id row, t.nodes[id]? = some row → (∀ r ∈ rs, r.row.id ≠ id) →
      (node id).act now row.relevance = row.relevance)
    (hedges : ∀ key, edge key = .leave) :
    Write.applyEach (rs.map write) t = t.touch now node edge := by
  apply Tables.ext_getElem?
  · intro id
    rw [Tables.getElem?_nodes_touch]
    by_cases hid : ∃ r ∈ rs, r.row.id = id
    · obtain ⟨r, hr, rfl⟩ := hid
      rw [h.getElem?_applyEach r hr, h.found r hr, hrated r hr]
      rfl
    · have hne : ∀ r ∈ rs, r.row.id ≠ id := fun r hr heq => hid ⟨r, hr, heq⟩
      rw [getElem?_applyEach_of_ne hne]
      cases hrow : t.nodes[id]? with
      | none => rfl
      | some row =>
          have hsame : row.mapRelevance ((node id).act now) = row := by
            rw [Node.mapRelevance, hothers id row hrow hne]
          rw [Option.map_some, hsame]
  · intro key
    rw [Tables.getElem?_edges_touch, Rating.edges_applyEach, hedges]
    cases t.edges[key]? <;> rfl

namespace Call

variable {t : Tables} {now : Timestamp}

theorem applyEach_updates_boostNode (ht : t.WellKeyed) (id : String) :
    Write.applyEach ((boostNode id).updates now t) t = (boostNode id).applied now t := by
  have hfit := ht.fit_ratings now (.boostNode id)
  apply hfit.applyEach_eq_touch
  · intro r hr
    obtain ⟨row, hrow, rfl⟩ := List.mem_map.1 hr
    rw [Rating.rated_eq, nodeTouch, if_pos (ht.nodes (Option.mem_toList.1 hrow))]
    rfl
  · intro other row hrow hne
    rw [nodeTouch, if_neg]
    · rfl
    · rintro rfl
      exact hne ⟨row, .ofBoost now⟩ (List.mem_map_of_mem (Option.mem_toList.2 hrow))
        (ht.nodes hrow)
  · exact fun _ => rfl

theorem applyEach_updates_supersede (ht : t.WellKeyed) {old new : String}
    {oldRow newRow : SealedNode} (hne : old ≠ new) (hold : t.nodes[old]? = some oldRow)
    (hnew : t.nodes[new]? = some newRow) :
    Write.applyEach ((supersedeNode old new).updates now t) t =
      (supersedeNode old new).applied now t := by
  have hfit := ht.fit_ratings now (.supersedeNode old new)
  have hratings : (supersedeNode old new).ratings now t = _ := ratings_supersedeNode hne hold hnew
  apply hfit.applyEach_eq_touch
  · intro r hr
    rw [hratings] at hr
    rcases List.mem_cons.1 hr with rfl | hr
    · rw [Rating.rated_eq, nodeTouch, if_pos (ht.nodes hold)]
      rfl
    · rw [List.mem_singleton.1 hr, Rating.rated_eq, nodeTouch, if_neg, if_pos (ht.nodes hnew)]
      · rfl
      · rw [ht.nodes hnew]
        exact hne.symm
  · intro other row hrow hothers
    rw [hratings] at hothers
    rw [nodeTouch, if_neg, if_neg]
    · rfl
    · rintro rfl
      exact hothers _ (List.mem_cons_of_mem _ List.mem_cons_self) (ht.nodes hnew)
    · rintro rfl
      exact hothers _ List.mem_cons_self (ht.nodes hold)
  · exact fun _ => rfl

theorem applyEach_updates_access (ht : t.WellKeyed) (ids : List String) :
    Write.applyEach ((recordAccess ids).updates now t) t = (recordAccess ids).applied now t := by
  have hfit := ht.fit_ratings now (.recordAccess ids)
  apply hfit.applyEach_eq_touch
  · intro r hr
    obtain ⟨row, hrow, rfl⟩ := List.mem_map.1 hr
    obtain ⟨id, hid, hfound⟩ := List.mem_filterMap.1 hrow
    rw [Rating.rated_eq, nodeTouch, if_pos]
    · rfl
    · rw [ht.nodes hfound]
      exact mem_distinct.1 hid
  · intro other row hrow hne
    rw [nodeTouch, if_neg]
    · rfl
    · intro hid
      exact hne ⟨row, .ofAccess now⟩
        (List.mem_map_of_mem (List.mem_filterMap.2 ⟨other, mem_distinct.2 hid, hrow⟩))
        (ht.nodes hrow)
  · exact fun _ => rfl

theorem applyEach_updates_boostEdge {key : EdgeKey} {row : SealedEdge}
    (hrow : t.edges[key]? = some row) :
    Write.applyEach ((boostEdge key).updates now t) t = (boostEdge key).applied now t := by
  rw [updates, hrow]
  apply Tables.ext_getElem?
  · intro id
    rw [applied, Tables.getElem?_nodes_touch]
    show t.nodes[id]? = _
    cases t.nodes[id]? <;> rfl
  · intro other
    rw [applied, Tables.getElem?_edges_touch]
    show (t.edges.modify key _)[other]? = _
    rw [Std.ExtTreeMap.getElem?_modify]
    by_cases hkey : other = key
    · subst hkey
      rw [if_pos (Std.ReflCmp.compare_self), hrow, edgeTouch, if_pos rfl]
      show some (Edge.mapRelevance _ row) = some (Edge.mapRelevance _ row)
      simp only [Edge.mapRelevance]
      exact congrArg (fun r => some { row with relevance := r })
        (RelevanceUpdate.apply_scoredFor _ row.relevance)
    · rw [if_neg fun heq => hkey (Std.LawfulEqCmp.eq_of_compare heq).symm, edgeTouch, if_neg hkey]
      cases t.edges[other]? <;> rfl

end Call

/-! ## Graphs after calls -/

/-- The graphs with the one of a tenant changed. -/
def changedAt (tenant : Tenant) (f : Tables → Tables) (graphs : Tenant → Tables) :
    Tenant → Tables :=
  fun other => if other = tenant then f (graphs other) else graphs other

@[simp] theorem changedAt_self (tenant : Tenant) (f : Tables → Tables)
    (graphs : Tenant → Tables) : changedAt tenant f graphs tenant = f (graphs tenant) :=
  if_pos rfl

theorem changedAt_of_ne {tenant other : Tenant} (h : other ≠ tenant) (f : Tables → Tables)
    (graphs : Tenant → Tables) : changedAt tenant f graphs other = graphs other :=
  if_neg h

theorem changedAt_congr {tenant : Tenant} {f g : Tables → Tables} {graphs : Tenant → Tables}
    (h : f (graphs tenant) = g (graphs tenant)) :
    changedAt tenant f graphs = changedAt tenant g graphs := by
  funext other
  by_cases hother : other = tenant
  · subst hother
    rw [changedAt_self, changedAt_self, h]
  · rw [changedAt_of_ne hother, changedAt_of_ne hother]

@[simp] theorem changedAt_id (tenant : Tenant) (graphs : Tenant → Tables) :
    changedAt tenant (fun t => t) graphs = graphs := by
  funext other
  by_cases hother : other = tenant
  · rw [hother, changedAt_self]
  · rw [changedAt_of_ne hother]

theorem changedAt_changedAt (tenant : Tenant) (f g : Tables → Tables) (graphs : Tenant → Tables) :
    changedAt tenant g (changedAt tenant f graphs) = changedAt tenant (g ∘ f) graphs := by
  funext other
  by_cases hother : other = tenant
  · subst hother
    rw [changedAt_self, changedAt_self, changedAt_self, Function.comp_apply]
  · rw [changedAt_of_ne hother, changedAt_of_ne hother, changedAt_of_ne hother]

theorem Write.applyEachAt_eq_changedAt {ws : List Write} {tenant : Tenant} {f : Tables → Tables}
    {graphs : Tenant → Tables} (h : applyEach ws (graphs tenant) = f (graphs tenant)) :
    applyEachAt ws tenant graphs = changedAt tenant f graphs := by
  funext other
  by_cases hother : other = tenant
  · subst hother
    rw [applyEachAt_self, changedAt_self, h]
  · rw [applyEachAt_of_ne ws hother, changedAt_of_ne hother]

/-- Changes of two graphs commute if those of one graph do. -/
theorem changedAt_comm {tenant tenant' : Tenant} {f g : Tables → Tables}
    (h : tenant = tenant' → ∀ t, f (g t) = g (f t)) (graphs : Tenant → Tables) :
    changedAt tenant f (changedAt tenant' g graphs) =
      changedAt tenant' g (changedAt tenant f graphs) := by
  funext other
  by_cases hf : other = tenant
  · subst hf
    by_cases hg : other = tenant'
    · subst hg
      simp only [changedAt_self, h rfl]
    · rw [changedAt_self, changedAt_of_ne hg, changedAt_of_ne hg, changedAt_self]
  · by_cases hg : other = tenant'
    · subst hg
      rw [changedAt_of_ne hf, changedAt_self, changedAt_self, changedAt_of_ne hf]
    · rw [changedAt_of_ne hf, changedAt_of_ne hg, changedAt_of_ne hg, changedAt_of_ne hf]

/-! ## What a call comes to -/

/-- The fault that an outcome holds. -/
def faultOf : Except Fault α → Option Fault
  | .ok _ => none
  | .error f => some f

theorem fault?_eq_faultOf {σ : Type} (r : EStateM.Result Fault σ α) :
    fault? r = faultOf (outcomeOf r) := by
  cases r <;> rfl

namespace Tables

/-- Whether there is such a node. -/
def requireNode (t : Tables) (id : String) : Except Fault Unit :=
  if t.nodes.contains id then .ok () else .error (.notFound ("node " ++ id))

/-- Whether there is such an edge. -/
def requireEdge (t : Tables) (key : EdgeKey) : Except Fault Unit :=
  if t.edges.contains key then .ok () else .error (.notFound ("edge " ++ key.text))

variable {t : Tables}

theorem requireNode_of_some {id : String} {row : SealedNode} (h : t.nodes[id]? = some row) :
    t.requireNode id = .ok () := by
  rw [requireNode, Std.ExtTreeMap.contains_eq_isSome_getElem?, h]
  rfl

theorem requireNode_of_none {id : String} (h : t.nodes[id]? = none) :
    t.requireNode id = .error (.notFound ("node " ++ id)) := by
  rw [requireNode, Std.ExtTreeMap.contains_eq_isSome_getElem?, h]
  rfl

theorem requireEdge_of_some {key : EdgeKey} {row : SealedEdge} (h : t.edges[key]? = some row) :
    t.requireEdge key = .ok () := by
  rw [requireEdge, Std.ExtTreeMap.contains_eq_isSome_getElem?, h]
  rfl

theorem requireEdge_of_none {key : EdgeKey} (h : t.edges[key]? = none) :
    t.requireEdge key = .error (.notFound ("edge " ++ key.text)) := by
  rw [requireEdge, Std.ExtTreeMap.contains_eq_isSome_getElem?, h]
  rfl

theorem requireNode_eq_ok {id : String} (h : t.requireNode id = .ok ()) :
    ∃ row, t.nodes[id]? = some row := by
  cases hrow : t.nodes[id]? with
  | none =>
      rw [requireNode_of_none hrow] at h
      contradiction
  | some row => exact ⟨row, rfl⟩

theorem requireNode_eq_error {id : String} {f : Fault} (h : t.requireNode id = .error f) :
    t.nodes[id]? = none ∧ f = .notFound ("node " ++ id) := by
  cases hrow : t.nodes[id]? with
  | none =>
      rw [requireNode_of_none hrow] at h
      exact ⟨rfl, (Except.error.inj h).symm⟩
  | some row =>
      rw [requireNode_of_some hrow] at h
      contradiction

theorem requireEdge_eq_ok {key : EdgeKey} (h : t.requireEdge key = .ok ()) :
    ∃ row, t.edges[key]? = some row := by
  cases hrow : t.edges[key]? with
  | none =>
      rw [requireEdge_of_none hrow] at h
      contradiction
  | some row => exact ⟨row, rfl⟩

theorem requireEdge_eq_error {key : EdgeKey} {f : Fault} (h : t.requireEdge key = .error f) :
    t.edges[key]? = none ∧ f = .notFound ("edge " ++ key.text) := by
  cases hrow : t.edges[key]? with
  | none =>
      rw [requireEdge_of_none hrow] at h
      exact ⟨rfl, (Except.error.inj h).symm⟩
  | some row =>
      rw [requireEdge_of_some hrow] at h
      contradiction

end Tables

namespace Engine

variable (e : Engine)

/-- Whether a call comes to change anything, while the permit of the tenant is held or not. -/
def admits (held : Bool) (tenant : Tenant) (scope : Scope) (clock : Nat) (t : Tables) :
    Call → Except Fault Unit
  | .boostNode id => do
    scope.check clock
    t.requireNode id
  | .boostEdge key => do
    scope.check clock
    t.requireEdge key
  | .supersedeNode old new =>
    if old = new then .error (.invalidArgument ("node " ++ old ++ " cannot supersede itself"))
    else do
      scope.check clock
      t.requireNode old
      t.requireNode new
  | .recordAccess ids => if (distinct ids).isEmpty then .ok () else scope.check clock
  | .recalculate =>
    if held then
      .error (.conflict ("salience recalculation already running for tenant " ++ tenant.name))
    else (scope.child clock e.config.sweep.deadlineMillis).check clock
  | _ => .ok ()

/-- Whether a call is answered: it comes to change something, and then opens what it gives back. -/
def judges (held : Bool) (tenant : Tenant) (scope : Scope) (clock : Nat) (t : Tables)
    (call : Call) : Except Fault Unit := do
  e.admits held tenant scope clock t call
  let _ ← (call.opened t).mapM (e.openPayload tenant)

/-- The graphs after a call. -/
def changes (now : Timestamp) (held : Bool) (tenant : Tenant) (scope : Scope) (clock : Nat)
    (call : Call) (graphs : Tenant → Tables) : Tenant → Tables :=
  match e.admits held tenant scope clock (graphs tenant) call with
  | .ok () => changedAt tenant (call.applied now) graphs
  | .error _ => graphs

variable {e} in
theorem changes_of_ok {now : Timestamp} {held : Bool} {tenant : Tenant} {scope : Scope}
    {clock : Nat} {call : Call} {graphs : Tenant → Tables}
    (h : e.admits held tenant scope clock (graphs tenant) call = .ok ()) :
    e.changes now held tenant scope clock call graphs =
      changedAt tenant (call.applied now) graphs := by
  rw [changes, h]

variable {e} in
theorem changes_of_error {now : Timestamp} {held : Bool} {tenant : Tenant} {scope : Scope}
    {clock : Nat} {call : Call} {graphs : Tenant → Tables} {f : Fault}
    (h : e.admits held tenant scope clock (graphs tenant) call = .error f) :
    e.changes now held tenant scope clock call graphs = graphs := by
  rw [changes, h]

/-- A run has come to an answer or a fault as judged, and has left these graphs. -/
structure EndsWith (verdict : Except Fault Unit) (graphs : Tenant → Tables) (w : World)
    (r : EStateM.Result Fault World α) : Prop where
  fault : fault? r = faultOf verdict
  becomes : ∃ events, w.Becomes graphs events (finalState r)

end Engine

/-- Nobody else uses the store, no request fails or takes any time, and it is a certain day. -/
structure World.Pauses (now : Timestamp) (w : World) : Prop where
  failure : ∀ served r, w.conditions.failure served r = none
  delay : ∀ served r, w.conditions.delay served r = 0
  alone : w.conditions.others = []
  today : w.wall w.clock = now

namespace World

variable {now : Timestamp} {scope : Scope} {u v w : World}

theorem Pauses.rests (h : w.Pauses now) (hlive : scope.check w.clock = .ok ()) :
    w.Rests scope now :=
  ⟨⟨h.failure, h.delay, hlive⟩, h.alone, h.today⟩

theorem Still.becomes (h : v.Still w) (halone : v.conditions.others = [])
    (hkeyed : v.store.WellKeyed) : v.Becomes v.store.tablesOf [] w := by
  refine ⟨h.conditions, h.wall, ?_, h.holder, fun tenant => h.tablesOf_eq halone tenant, ?_⟩
  · rw [List.append_nil]
    exact h.announced
  · intro tenant
    rw [h.tablesOf_eq halone]
    exact hkeyed tenant

theorem Becomes.trans {graphs graphs' : Tenant → Tables} {events more : List ChangeEvent}
    (h : u.Becomes graphs events v) (h' : v.Becomes graphs' more w) :
    u.Becomes graphs' (events ++ more) w := by
  refine ⟨h'.conditions.trans h.conditions, h'.wall.trans h.wall, ?_,
    fun tenant => (h'.holder tenant).trans (h.holder tenant), h'.tables, h'.wellKeyed⟩
  rw [h'.announced, h.announced, List.append_assoc]

end World

namespace Engine

open SalientGraph.Action (published bind_of_ok bind_of_error transact_of_rests)

variable (e : Engine) {tenant : Tenant} {scope : Scope} {now : Timestamp} {w : World}

/-! ### Opening -/

theorem faultOf_openNode (tenant : Tenant) (row : SealedNode) :
    faultOf (e.openNode tenant row) = faultOf (e.openPayload tenant row.properties) := by
  unfold openNode
  cases e.openPayload tenant row.properties <;> rfl

theorem faultOf_openEdge (tenant : Tenant) (row : SealedEdge) :
    faultOf (e.openEdge tenant row) = faultOf (e.openPayload tenant row.properties) := by
  unfold openEdge
  cases e.openPayload tenant row.properties <;> rfl

theorem faultOf_singleton (payload : Sealed) :
    faultOf ([payload].mapM (e.openPayload tenant)) = faultOf (e.openPayload tenant payload) := by
  rw [List.mapM_cons]
  cases e.openPayload tenant payload <;> rfl

/-- Several nodes cannot be opened for the reason for which one of their payloads cannot. -/
theorem faultOf_openNodes (rows : List SealedNode) :
    faultOf (e.openNodes tenant rows) =
      faultOf ((rows.map Node.properties).mapM (e.openPayload tenant)) := by
  induction rows with
  | nil => rfl
  | cons row rows ih =>
      unfold openNodes at ih ⊢
      rw [List.map_cons, List.mapM_cons, List.mapM_cons]
      have hrow := faultOf_openNode e tenant row
      cases hnode : e.openNode tenant row with
      | error f =>
          cases hpayload : e.openPayload tenant row.properties with
          | ok _ => rw [hnode, hpayload] at hrow; cases hrow
          | error g => rw [hnode, hpayload] at hrow; exact hrow
      | ok node =>
          cases hpayload : e.openPayload tenant row.properties with
          | error _ => rw [hnode, hpayload] at hrow; cases hrow
          | ok _ =>
              show faultOf (rows.mapM (e.openNode tenant) >>= fun nodes => _) =
                faultOf ((rows.map Node.properties).mapM (e.openPayload tenant) >>= fun rest => _)
              revert ih
              cases rows.mapM (e.openNode tenant) <;>
                cases (rows.map Node.properties).mapM (e.openPayload tenant) <;>
                intro ih <;> first | rfl | exact ih

/-! ### Boosts, successors and accesses -/

section
variable (hw : w.Pauses now) (hkeyed : w.store.WellKeyed)
include hw hkeyed

/-- What runs a script in a transaction, tells of it and gives back an outcome comes to what the
script is evaluated to, unless the scope is over. -/
theorem ends_published {p : Script α} (hp : p.Settled) (hstill : Session.stillness.Obeys p.run)
    (tell : α → Action Unit) (events : α → List ChangeEvent)
    (htell : ∀ a u, tell a scope u = .ok () { u with announced := u.announced ++ events a })
    {outcome : α → Except Fault β} (call : Call) (held : Bool) (asked : Except Fault Unit)
    (hadmits : e.admits held tenant scope w.clock (w.store.tablesOf tenant) call = (do
      scope.check w.clock
      asked))
    (hrefused : ∀ f, asked = .error f → p.eval now w.store.tablesOf = .error f)
    (hgranted : asked = .ok () → ∃ a, p.eval now w.store.tablesOf =
        .ok (a, changedAt tenant (call.applied now) w.store.tablesOf) ∧
      faultOf (outcome a) =
        faultOf ((call.opened (w.store.tablesOf tenant)).mapM (e.openPayload tenant))) :
    EndsWith (e.judges held tenant scope w.clock (w.store.tablesOf tenant) call)
      (e.changes now held tenant scope w.clock call w.store.tablesOf) w
      (published p.run tell outcome scope w) := by
  unfold judges changes
  rw [hadmits]
  cases hlive : scope.check w.clock with
  | error f =>
      have hcheck : Action.check scope w = .error f w := by
        unfold Action.check
        rw [hlive]
      have hrun : published p.run tell outcome scope w = .error f w :=
        bind_of_error (bind_of_error hcheck)
      rw [hrun]
      exact ⟨rfl, [], (World.Still.refl w).becomes hw.alone hkeyed⟩
  | ok _ =>
      have htransact := transact_of_rests hp hstill (hw.rests hlive) hkeyed
      cases asked with
      | error f =>
          rw [hrefused f rfl] at htransact
          obtain ⟨u, hrun, hu⟩ := htransact
          have hfailed : published p.run tell outcome scope w = .error f u := bind_of_error hrun
          rw [hfailed]
          exact ⟨rfl, [], hu.becomes hw.alone hkeyed⟩
      | ok _ =>
          obtain ⟨a, heval, hopened⟩ := hgranted rfl
          rw [heval] at htransact
          obtain ⟨u, hrun, hu, _⟩ := htransact
          have hdone : published p.run tell outcome scope w =
              Action.ofOutcome (outcome a) scope
                { u with announced := u.announced ++ events a } :=
            (bind_of_ok hrun).trans (bind_of_ok (htell a u))
          rw [hdone]
          constructor
          · have hfault : fault? (Action.ofOutcome (outcome a) scope
                { u with announced := u.announced ++ events a }) = faultOf (outcome a) := by
              cases outcome a <;> rfl
            rw [hfault, hopened]
            show faultOf _ = faultOf (List.mapM _ _ >>= fun _ => .ok ())
            cases (call.opened (w.store.tablesOf tenant)).mapM (e.openPayload tenant) <;> rfl
          · rw [Action.finalState_ofOutcome]
            exact ⟨[] ++ events a, hu.announce⟩

theorem ends_boostNode (id : String) (held : Bool) :
    EndsWith (e.judges held tenant scope w.clock (w.store.tablesOf tenant) (.boostNode id))
      (e.changes now held tenant scope w.clock (.boostNode id) w.store.tablesOf) w
      (e.boostNode tenant id scope w) := by
  have hbody : (Script.boostNode tenant id).run = boostRow tenant id := by
    simp only [Script.boostNode, boostRow, Script.run_bind, Script.run_requireRow, Script.run_now,
      Script.run_rateNode]
  have hstill : Session.stillness.Obeys (Script.boostNode tenant id).run := by
    rw [hbody]
    exact (TxAction.editable_stillness tenant).boostRow id
  rw [Script.boostNode_eq]
  apply ends_published e hw hkeyed (Script.settled_boostNode tenant id) hstill
    (fun _ => Action.announce (.nodeBoosted tenant id)) (fun _ => [.nodeBoosted tenant id])
    (fun _ _ => rfl) (.boostNode id) held ((w.store.tablesOf tenant).requireNode id) rfl
  · intro f hrefused
    obtain ⟨hrow, rfl⟩ := Tables.requireNode_eq_error hrefused
    exact Script.eval_boostNode_of_none hrow
  · intro hgranted
    obtain ⟨row, hrow⟩ := Tables.requireNode_eq_ok hgranted
    refine ⟨Rating.rated ⟨row, .ofBoost now⟩, ?_, ?_⟩
    · rw [Script.eval_boostNode_of_some hrow (hkeyed tenant),
        Write.applyEachAt_eq_changedAt (Call.applyEach_updates_boostNode (hkeyed tenant) id)]
    · rw [faultOf_openNode, Call.opened, hrow]
      exact (faultOf_singleton e _).symm

theorem ends_boostEdge (key : EdgeKey) (held : Bool) :
    EndsWith (e.judges held tenant scope w.clock (w.store.tablesOf tenant) (.boostEdge key))
      (e.changes now held tenant scope w.clock (.boostEdge key) w.store.tablesOf) w
      (e.boostEdge tenant key scope w) := by
  have hstill : Session.stillness.Obeys (Script.boostEdge tenant key).run := by
    rw [Script.run_boostEdge]
    exact (TxAction.editable_stillness tenant).boostEdgeRow key
  rw [Script.boostEdge_eq]
  apply ends_published e hw hkeyed (Script.settled_boostEdge tenant key) hstill
    (fun _ => Action.announce (.edgeBoosted tenant key)) (fun _ => [.edgeBoosted tenant key])
    (fun _ _ => rfl) (.boostEdge key) held ((w.store.tablesOf tenant).requireEdge key) rfl
  · intro f hrefused
    obtain ⟨hrow, rfl⟩ := Tables.requireEdge_eq_error hrefused
    exact Script.eval_boostEdge_of_none hrow
  · intro hgranted
    obtain ⟨row, hrow⟩ := Tables.requireEdge_eq_ok hgranted
    refine ⟨((RelevanceUpdate.ofBoost now).plan row).2, ?_, ?_⟩
    · rw [Script.eval_boostEdge_of_some hrow,
        Write.applyEachAt_eq_changedAt (Call.applyEach_updates_boostEdge hrow)]
    · rw [faultOf_openEdge, Call.opened, hrow]
      exact (faultOf_singleton e _).symm

theorem ends_supersedeNode (old new : String) (held : Bool) :
    EndsWith (e.judges held tenant scope w.clock (w.store.tablesOf tenant)
        (.supersedeNode old new))
      (e.changes now held tenant scope w.clock (.supersedeNode old new) w.store.tablesOf) w
      (e.supersedeNode tenant old new scope w) := by
  by_cases hne : old = new
  · have hadmits : e.admits held tenant scope w.clock (w.store.tablesOf tenant)
        (.supersedeNode old new) = .error _ := if_pos hne
    unfold judges changes supersedeNode
    rw [hadmits, if_pos hne]
    exact ⟨rfl, [], (World.Still.refl w).becomes hw.alone hkeyed⟩
  · have hstill : Session.stillness.Obeys (Script.succeed tenant old new).run := by
      rw [Script.run_succeed]
      exact (TxAction.editable_stillness tenant).succeed old new
    rw [Script.supersedeNode_eq, if_neg hne]
    apply ends_published e hw hkeyed (Script.settled_succeed tenant old new) hstill
      (fun _ => Action.announce (.nodeSuperseded tenant old new))
      (fun _ => [.nodeSuperseded tenant old new]) (fun _ _ => rfl) (.supersedeNode old new) held
      (do
        (w.store.tablesOf tenant).requireNode old
        (w.store.tablesOf tenant).requireNode new) (if_neg hne)
    · intro f hrefused
      cases hold : (w.store.tablesOf tenant).nodes[old]? with
      | none =>
          rw [Tables.requireNode_of_none hold] at hrefused
          cases hrefused
          exact Script.eval_succeed_of_old_none hold
      | some oldRow =>
          rw [Tables.requireNode_of_some hold] at hrefused
          obtain ⟨hnew, rfl⟩ := Tables.requireNode_eq_error hrefused
          exact Script.eval_succeed_of_new_none hold hnew
    · intro hgranted
      cases hold : (w.store.tablesOf tenant).nodes[old]? with
      | none =>
          rw [Tables.requireNode_of_none hold] at hgranted
          contradiction
      | some oldRow =>
          rw [Tables.requireNode_of_some hold] at hgranted
          obtain ⟨newRow, hnew⟩ := Tables.requireNode_eq_ok hgranted
          refine ⟨Rating.rated ⟨oldRow, .ofSuccessor now new⟩, ?_, ?_⟩
          · rw [Script.eval_succeed_of_some hne hold hnew (hkeyed tenant),
              Write.applyEachAt_eq_changedAt
                (Call.applyEach_updates_supersede (hkeyed tenant) hne hold hnew)]
          · rw [faultOf_openNode, Call.opened, hold]
            exact (faultOf_singleton e _).symm

theorem ends_recordAccess (ids : List String) (held : Bool) :
    EndsWith (e.judges held tenant scope w.clock (w.store.tablesOf tenant) (.recordAccess ids))
      (e.changes now held tenant scope w.clock (.recordAccess ids) w.store.tablesOf) w
      (e.recordAccess tenant ids scope w) := by
  rw [recordAccess_eq_tellAccesses]
  by_cases hempty : (distinct ids).isEmpty = true
  · -- nothing is asked for, so nothing is done
    have hnone : distinct ids = [] := List.isEmpty_iff.1 hempty
    have hadmits : e.admits held tenant scope w.clock (w.store.tablesOf tenant)
        (.recordAccess ids) = .ok () := if_pos hempty
    have hupdates : (Call.recordAccess ids).updates now (w.store.tablesOf tenant) = [] := by
      rw [Call.updates, Call.ratings, hnone]
      rfl
      rintro _ h
      cases h
    have hsame : changedAt tenant ((Call.recordAccess ids).applied now) w.store.tablesOf =
        w.store.tablesOf := by
      rw [← Write.applyEachAt_eq_changedAt (Call.applyEach_updates_access (hkeyed tenant) ids),
        hupdates]
      rfl
    unfold judges changes
    rw [hadmits, if_pos hempty, Call.opened, hnone]
    dsimp only
    rw [hsame]
    exact ⟨rfl, [], (World.Still.refl w).becomes hw.alone hkeyed⟩
  · have hstill : Session.stillness.Obeys (Script.count tenant (distinct ids)).run := by
      rw [Script.run_count]
      exact (TxAction.editable_stillness tenant).count (distinct ids)
    rw [if_neg hempty, ← Script.run_count]
    apply ends_published e hw hkeyed (Script.settled_count tenant (distinct ids)) hstill
      _ _ (fun rows => tellAccesses_apply tenant (rows.map Node.id) scope) (.recordAccess ids)
      held (.ok ())
    · rw [admits, if_neg hempty]
      cases scope.check w.clock <;> rfl
    · intro f hrefused
      contradiction
    · intro _
      refine ⟨((Call.recordAccess ids).ratings now (w.store.tablesOf tenant)).map Rating.rated,
        ?_, ?_⟩
      · rw [Script.eval_count ids (hkeyed tenant),
          Write.applyEachAt_eq_changedAt (Call.applyEach_updates_access (hkeyed tenant) ids)]
      · rw [faultOf_openNodes, Call.opened, Call.ratings, List.map_map, List.map_map]
        rfl

end

end Engine
end SalientGraph
