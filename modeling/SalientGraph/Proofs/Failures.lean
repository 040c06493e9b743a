import SalientGraph.Proofs.Store.Reached
import SalientGraph.Proofs.Transitions

/-!
# What is left of an edit that fails

An edit that fails leaves the committed graphs and the events as they were, with one
exception. Payloads stay sealed while salience is changed: boosts, successors and
accesses open what they give back only once the change is committed and announced. A
payload that cannot be opened makes such a call fail, but does not undo it.
-/

namespace SalientGraph

namespace Call

/-- Whether the call edits the graph of its tenant in one transaction. -/
def isEdit : Call → Bool
  | .createNode _ | .createEdge _ | .removeNode _ | .removeEdge _ | .boostNode _ | .boostEdge _
  | .supersedeNode _ _ | .recordAccess _ => true
  | _ => false

/-- The stored payloads that a call opens once it is committed. -/
def opened (t : Tables) : Call → List Sealed
  | .boostNode id | .supersedeNode id _ => (t.nodes[id]?).toList.map Node.properties
  | .boostEdge key => (t.edges[key]?).toList.map Edge.properties
  | .recordAccess ids => ((distinct ids).filterMap (t.nodes[·]?)).map Node.properties
  | _ => []

/-- Accesses are announced, if there are any. -/
def accessEvents (tenant : Tenant) (ids : List String) : List ChangeEvent :=
  if ids.isEmpty then [] else [.nodesAccessed tenant ids]

/-- The events that a call announces once it is committed. -/
def events (tenant : Tenant) (t : Tables) : Call → List ChangeEvent
  | .boostNode id => [.nodeBoosted tenant id]
  | .boostEdge key => [.edgeBoosted tenant key]
  | .supersedeNode old new => [.nodeSuperseded tenant old new]
  | .recordAccess ids => accessEvents tenant (((distinct ids).filterMap (t.nodes[·]?)).map Node.id)
  | _ => []

end Call

/-- The world after a call whose transaction is committed, but which fails all the same as it cannot
open what it gives back. -/
structure Engine.Unopened (e : Engine) (tenant : Tenant) (call : Call) (f : Fault) (v w : World) :
    Prop where
  payload : ∃ payload ∈ call.opened (v.store.tablesOf tenant),
    e.openPayload tenant payload = .error f
  committed : ∃ time, v.Becomes
    (Write.applyEachAt (call.updates (v.wall time) (v.store.tablesOf tenant)) tenant
      v.store.tablesOf)
    (call.events tenant (v.store.tablesOf tenant)) w

/-! ## Opening -/

/-- To put an outcome in another form does not fail. -/
theorem eq_error_of_return {α β : Type} {outcome : Except Fault α} {form : α → β} {f : Fault}
    (h : (do return form (← outcome)) = Except.error f) : outcome = .error f := by
  cases outcome with
  | ok a => cases h
  | error g =>
      cases h
      rfl

namespace Engine

variable (e : Engine) {tenant : Tenant} {f : Fault}

theorem openPayload_of_openNode {row : SealedNode} (h : e.openNode tenant row = .error f) :
    e.openPayload tenant row.properties = .error f :=
  eq_error_of_return h

theorem openPayload_of_openEdge {row : SealedEdge} (h : e.openEdge tenant row = .error f) :
    e.openPayload tenant row.properties = .error f :=
  eq_error_of_return h

/-- If a list of nodes cannot be opened, one of them cannot. -/
theorem exists_of_openNodes {rows : List SealedNode} (h : e.openNodes tenant rows = .error f) :
    ∃ row ∈ rows, e.openPayload tenant row.properties = .error f := by
  induction rows with
  | nil => cases h
  | cons row rows ih =>
      unfold openNodes at h ih
      rw [List.mapM_cons] at h
      cases hrow : e.openNode tenant row with
      | error g =>
          rw [hrow] at h
          cases h
          exact ⟨row, List.mem_cons_self, openPayload_of_openNode e hrow⟩
      | ok node =>
          rw [hrow] at h
          cases hrest : rows.mapM (e.openNode tenant) with
          | ok nodes =>
              rw [hrest] at h
              cases h
          | error g =>
              rw [hrest] at h ih
              cases h
              obtain ⟨other, hother, hopen⟩ := ih rfl
              exact ⟨other, List.mem_cons_of_mem row hother, hopen⟩

end Engine

/-! ## Faults of calls -/

namespace Action

variable {α β : Type} {body : TxAction α} {scope : Scope} {v w : World} {f : Fault}

/-- A fault of a chain is a fault of its first link or of what follows. -/
theorem exists_of_bind_eq_error {act : Action α} {next : α → Action β}
    (h : (act >>= next) scope v = .error f w) :
    act scope v = .error f w ∨ ∃ a u, act scope v = .ok a u ∧ next a scope u = .error f w := by
  cases hact : act scope v with
  | ok a u =>
      rw [bind_of_ok hact] at h
      exact .inr ⟨a, u, rfl, h⟩
  | error g u =>
      rw [bind_of_error hact] at h
      cases h
      exact .inl rfl

/-- To put an answer in another form does not fail. -/
theorem eq_error_of_map {act : Action α} {form : α → β}
    (h : (act >>= fun a => pure (form a)) scope v = .error f w) : act scope v = .error f w := by
  rcases exists_of_bind_eq_error h with hact | ⟨a, u, _, hpure⟩
  · exact hact
  · cases hpure

/-- A transaction that fails leaves the world still. -/
theorem still_of_transact_error {access : Access} (hbody : Session.stillness.Obeys body)
    (h : transact access body scope v = .error f w) : v.Still w := by
  rcases transact_cases hbody scope v with ⟨g, u, hrun, hu⟩ | ⟨a, s, t, u, _, _, _, hrun⟩
  · rw [hrun] at h
    cases h
    exact hu
  · rw [hrun] at h
    cases h

/-- What is done in a transaction of its own, told of once it is committed, and then given back in
another form, which may fail. -/
def published (body : TxAction α) (tell : α → Action Unit) (outcome : α → Except Fault β) :
    Action β := do
  let a ← transact .readWrite body
  tell a
  ofOutcome (outcome a)

section
variable {described : α → (Tenant → Tables) → Prop} {tell : α → Action Unit}
  {events : α → List ChangeEvent}
  (hbody : Session.stillness.Obeys body) (hmakes : body.Makes v.wall v.store.tablesOf described)
  (halone : v.conditions.others = []) (hkeyed : v.store.WellKeyed)
  (htell : ∀ a u, tell a scope u = .ok () { u with announced := u.announced ++ events a })
include hbody hmakes halone hkeyed htell

/-- It fails in the transaction and leaves the world still, or else the transaction is committed,
the events are announced, and the outcome is given back. -/
theorem published_cases (outcome : α → Except Fault β) :
    (∃ g u, published body tell outcome scope v = .error g u ∧ v.Still u) ∨
      ∃ a graphs u, described a graphs ∧ v.Becomes graphs (events a) u ∧
        published body tell outcome scope v = ofOutcome (outcome a) scope u := by
  rcases transact_makes hbody hmakes halone hkeyed scope with
    ⟨g, u, hrun, hu⟩ | ⟨a, graphs, u, hrun, hmade, hu⟩
  · exact .inl ⟨g, u, bind_of_error hrun, hu⟩
  · exact .inr ⟨a, graphs, _, hmade, hu.announce,
      (bind_of_ok hrun).trans (bind_of_ok (htell a u))⟩

/-- If it fails, it has failed in the transaction, or else the outcome is the fault. -/
theorem published_error {outcome : α → Except Fault β}
    (h : published body tell outcome scope v = .error f w) :
    v.Still w ∨ ∃ a graphs, described a graphs ∧ outcome a = .error f ∧
      v.Becomes graphs (events a) w := by
  rcases published_cases hbody hmakes halone hkeyed htell outcome with
    ⟨g, u, hrun, hu⟩ | ⟨a, graphs, u, hmade, hu, hrun⟩
  · cases hrun.symm.trans h
    exact .inl hu
  · have hfailed := hrun.symm.trans h
    cases houtcome : outcome a with
    | ok b =>
        rw [houtcome] at hfailed
        cases hfailed
    | error g =>
        rw [houtcome] at hfailed
        cases hfailed
        exact .inr ⟨a, graphs, hmade, houtcome, hu⟩

end

end Action

namespace Engine

open SalientGraph.Action (eq_error_of_map still_of_transact_error published_error)

variable (e : Engine) {tenant : Tenant} {scope : Scope} {v w : World} {f : Fault}

/-- Tells of accesses, if there were any. -/
def tellAccesses (tenant : Tenant) (ids : List String) : Action Unit :=
  if ids.isEmpty then pure () else Action.announce (.nodesAccessed tenant ids)

theorem tellAccesses_apply (tenant : Tenant) (ids : List String) (scope : Scope) (w : World) :
    tellAccesses tenant ids scope w =
      .ok () { w with announced := w.announced ++ Call.accessEvents tenant ids } := by
  cases ids with
  | nil =>
      show _ = EStateM.Result.ok () { w with announced := w.announced ++ [] }
      rw [List.append_nil]
      rfl
  | cons id ids => rfl

theorem recordAccess_eq_tellAccesses (tenant : Tenant) (ids : List String) :
    e.recordAccess tenant ids =
      if (distinct ids).isEmpty then pure []
      else (do
        let rows ← Action.transact .readWrite (count tenant (distinct ids))
        tellAccesses tenant (rows.map Node.id)
        Action.ofOutcome (e.openNodes tenant rows)) := by
  unfold recordAccess
  dsimp only
  split
  · rfl
  · congr 1
    funext rows
    cases rows <;> rfl

section
variable (halone : v.conditions.others = []) (hkeyed : v.store.WellKeyed)
include halone hkeyed

theorem boostNode_error {id : String} (h : e.boostNode tenant id scope v = .error f w) :
    v.Still w ∨ e.Unopened tenant (.boostNode id) f v w := by
  rw [boostNode_eq_boostRow] at h
  have hbody := (TxAction.editable_stillness tenant).boostRow id
  rcases published_error hbody (makes_boostRow id) halone hkeyed (fun _ _ => rfl) h with
    hstill | ⟨rated, graphs, ⟨row, time, hrow, rfl, rfl⟩, hopen, hcommitted⟩
  · exact .inl hstill
  · have hpayload := openPayload_of_openNode e hopen
    refine .inr ⟨⟨row.properties, ?_, hpayload⟩, time, hcommitted⟩
    rw [Call.opened, hrow]
    exact List.mem_singleton_self _

theorem boostEdge_error {key : EdgeKey} (h : e.boostEdge tenant key scope v = .error f w) :
    v.Still w ∨ e.Unopened tenant (.boostEdge key) f v w := by
  rw [boostEdge_eq_boostEdgeRow] at h
  have hbody := (TxAction.editable_stillness tenant).boostEdgeRow key
  rcases published_error hbody (makes_boostEdgeRow key) halone hkeyed (fun _ _ => rfl) h with
    hstill | ⟨rated, graphs, ⟨row, time, hrow, rfl, rfl⟩, hopen, hcommitted⟩
  · exact .inl hstill
  · have hpayload := openPayload_of_openEdge e hopen
    refine .inr ⟨⟨row.properties, ?_, hpayload⟩, time, hcommitted⟩
    rw [Call.opened, hrow]
    exact List.mem_singleton_self _

theorem supersedeNode_error {old new : String}
    (h : e.supersedeNode tenant old new scope v = .error f w) :
    v.Still w ∨ e.Unopened tenant (.supersedeNode old new) f v w := by
  unfold supersedeNode at h
  split at h
  · cases h
    exact .inl (.refl v)
  · rename_i hne
    have hbody := (TxAction.editable_stillness tenant).succeed old new
    rcases published_error hbody (makes_succeed hne) halone hkeyed (fun _ _ => rfl) h with
      hstill | ⟨rated, graphs, ⟨row, _, time, hrow, _, rfl, rfl⟩, hopen, hcommitted⟩
    · exact .inl hstill
    · have hpayload := openPayload_of_openNode e hopen
      refine .inr ⟨⟨row.properties, ?_, hpayload⟩, time, hcommitted⟩
      rw [Call.opened, hrow]
      exact List.mem_singleton_self _

theorem recordAccess_error {ids : List String}
    (h : e.recordAccess tenant ids scope v = .error f w) :
    v.Still w ∨ e.Unopened tenant (.recordAccess ids) f v w := by
  rw [recordAccess_eq_tellAccesses] at h
  split at h
  · cases h
  · have hbody := (TxAction.editable_stillness tenant).count (distinct ids)
    rcases published_error hbody (makes_count ids) halone hkeyed
      (fun rows => tellAccesses_apply tenant (rows.map Node.id) scope) h with
      hstill | ⟨rated, graphs, ⟨time, rfl, rfl⟩, hopen, hcommitted⟩
    · exact .inl hstill
    · -- what is given back was found before, with the same payloads and under the same identifiers
      obtain ⟨row, hrow, hpayload⟩ := exists_of_openNodes e hopen
      obtain ⟨r, hr, rfl⟩ := List.mem_map.1 hrow
      obtain ⟨found, hfound, rfl⟩ := List.mem_map.1 hr
      refine .inr ⟨⟨found.properties, List.mem_map_of_mem hfound, hpayload⟩, time, ?_⟩
      rw [Call.ratings, List.map_map, List.map_map] at hcommitted
      exact hcommitted

end

/-- Creating and removing gives back nothing that would have to be opened. -/
theorem createNode_error {node : OpenNode} (h : e.createNode tenant node scope v = .error f w) :
    v.Still w :=
  have hedit := TxAction.editable_stillness tenant
  still_of_transact_error (hedit.step (hedit.putNode e node)) h

theorem createEdge_error {edge : OpenEdge} (h : e.createEdge tenant edge scope v = .error f w) :
    v.Still w :=
  have hedit := TxAction.editable_stillness tenant
  still_of_transact_error (hedit.step (hedit.putEdge e edge)) h

theorem removeNode_error {id : String} (h : removeNode tenant id scope v = .error f w) :
    v.Still w :=
  have hedit := TxAction.editable_stillness tenant
  still_of_transact_error (hedit.step (hedit.deleteNode id)) h

theorem removeEdge_error {key : EdgeKey} (h : removeEdge tenant key scope v = .error f w) :
    v.Still w :=
  have hedit := TxAction.editable_stillness tenant
  still_of_transact_error (hedit.step (hedit.deleteEdgeRow key)) h

theorem perform_error (halone : v.conditions.others = []) (hkeyed : v.store.WellKeyed) {call : Call}
    (hcall : call.isEdit = true) (h : e.perform tenant call scope v = .error f w) :
    v.Still w ∨ e.Unopened tenant call f v w := by
  cases call with
  | createNode node => exact .inl (createNode_error e (eq_error_of_map h))
  | createEdge edge => exact .inl (createEdge_error e (eq_error_of_map h))
  | removeNode id => exact .inl (removeNode_error (eq_error_of_map h))
  | removeEdge key => exact .inl (removeEdge_error (eq_error_of_map h))
  | boostNode id => exact boostNode_error e halone hkeyed (eq_error_of_map h)
  | boostEdge key => exact boostEdge_error e halone hkeyed (eq_error_of_map h)
  | supersedeNode old new => exact supersedeNode_error e halone hkeyed (eq_error_of_map h)
  | recordAccess ids => exact recordAccess_error e halone hkeyed (eq_error_of_map h)
  | getNode | getEdge | neighbors | traverse | context | shortestPath | fullTextSearch
  | semanticSearch | hybridSearch | recalculate => contradiction

/-- Alone on any store that can come about, an edit that fails leaves the committed graphs and the
events as they were. Otherwise its fault is that of opening a stored payload that it gives back;
then its updates are committed and its events are announced as if it had not failed. -/
theorem failed_edit_changes_nothing (w : World) (hstore : w.store.Reached)
    (halone : w.conditions.others = []) (tenant : Tenant) (call : Call) (hcall : call.isEdit = true)
    (scope : Scope) (f : Fault) (v : World) (h : e.perform tenant call scope w = .error f v) :
    ((∀ other, v.store.tablesOf other = w.store.tablesOf other) ∧ v.announced = w.announced) ∨
      (∃ payload ∈ call.opened (w.store.tablesOf tenant), e.openPayload tenant payload = .error f) ∧
        (∃ time, ∀ other, v.store.tablesOf other =
          Write.applyEachAt (call.updates (w.wall time) (w.store.tablesOf tenant)) tenant
            w.store.tablesOf other) ∧
        v.announced = w.announced ++ call.events tenant (w.store.tablesOf tenant) := by
  rcases perform_error e halone hstore.wellKeyed hcall h with
    hstill | ⟨hpayload, time, hcommitted⟩
  · exact .inl ⟨hstill.tablesOf_eq halone, hstill.announced⟩
  · exact .inr ⟨hpayload, ⟨time, hcommitted.tables⟩, hcommitted.announced⟩

/-- Accesses to two nodes are counted, which takes ten milliseconds each. The deadline is over while
the second one is written, after the start, the reading and the first one, and before the rollback:
neither is kept. The payload of another node is no text. To boost it fails as well, but the boost is
committed and announced. -/
theorem failed_edit_changes_nothing_between_two_updates :
    let e : Engine :=
      { nonce := fun _ => [], shuffle := fun _ ids => ids, shuffle_perm := fun _ _ => .refl _ }
    let acme : Tenant := ⟨"acme"⟩
    let put (tx : Transaction) (id : String) (payload : Bytes) : Transaction :=
      tx.stageNode acme id (.put ⟨id, "concept", id, ⟨payload⟩, none, default⟩)
    let tx := (Store.begin {} .readWrite).1
    let slow : Conditions := { delay := fun _ r => if r = .updateNode then 10 else 0 }
    let w : World :=
      { World.start {} default with
        store := Store.commit {} (put (put tx "a" []) "b" []), conditions := slow }
    let w' : World := { World.start {} default with store := Store.commit {} (put tx "n" [0xff]) }
    (∃ v, e.perform acme (.recordAccess ["a", "b"]) ⟨some 15, none⟩ w = .error .deadlineExceeded v ∧
        v.clock = 15 ∧ v.served = 5 ∧ (v.store.tablesOf acme).nodes.keys = ["a", "b"] ∧
        (∀ other, v.store.tablesOf other = w.store.tablesOf other) ∧
        v.announced = w.announced) ∧
      ∃ v, e.perform acme (.boostNode "n") .unbounded w' = .error .malformed v ∧
        (∃ time, ∀ other, v.store.tablesOf other =
          Write.applyEachAt ((Call.boostNode "n").updates (w'.wall time) (w'.store.tablesOf acme))
            acme w'.store.tablesOf other) ∧
        v.announced = [.nodeBoosted acme "n"] := by
  intro e acme put tx slow w w'
  have hput (tx : Transaction) (id : String) (payload : Bytes) (haccess : tx.access = .readWrite)
      (h : tx.Made) : (put tx id payload).Made :=
    h.putNode haccess acme ⟨id, "concept", id, ⟨payload⟩, none, default⟩
  have htx : tx.Made := .begun {} .readWrite
  constructor
  · have hstore : w.store.Reached :=
      .committed (.empty rfl) (hput _ _ _ rfl (hput _ _ _ rfl htx)) rfl
    have hfault : fault? (e.perform acme (.recordAccess ["a", "b"]) ⟨some 15, none⟩ w) =
        some .deadlineExceeded := by
      decide +kernel
    have hrun := eq_error_of_fault? hfault
    refine ⟨_, hrun, by decide +kernel, by decide +kernel, by decide +kernel, ?_⟩
    rcases failed_edit_changes_nothing e w hstore rfl acme (.recordAccess ["a", "b"]) rfl
      ⟨some 15, none⟩ _ _ hrun with hunchanged | ⟨⟨payload, hpayload, hclosed⟩, _⟩
    · exact hunchanged
    · -- both payloads are empty, and can be opened
      have hempty : (Call.recordAccess ["a", "b"]).opened (w.store.tablesOf acme) =
          [⟨[]⟩, ⟨[]⟩] := by
        decide +kernel
      have hpayload' : payload = ⟨[]⟩ := by
        rw [hempty] at hpayload
        simpa using hpayload
      have hopen : (e.openPayload acme ⟨[]⟩).isOk = true := by decide +kernel
      rw [← hpayload', hclosed] at hopen
      contradiction
  · have hstore : w'.store.Reached := .committed (.empty rfl) (hput _ _ _ rfl htx) rfl
    have hfault : fault? (e.perform acme (.boostNode "n") .unbounded w') = some .malformed := by
      decide +kernel
    have hrun := eq_error_of_fault? hfault
    refine ⟨_, hrun, ?_⟩
    rcases failed_edit_changes_nothing e w' hstore rfl acme (.boostNode "n") rfl .unbounded _ _
      hrun with ⟨_, hquiet⟩ | ⟨_, hcommitted, hannounced⟩
    · have hloud : (finalState (e.perform acme (.boostNode "n") .unbounded w')).announced ≠
          w'.announced := by
        decide +kernel
      contradiction
    · exact ⟨hcommitted, hannounced⟩

/-- A node whose payload is no text is boosted. The call fails, but the boost is committed and
announced. -/
theorem failed_boost_is_committed_and_announced :
    let e : Engine :=
      { nonce := fun _ => [], shuffle := fun _ ids => ids, shuffle_perm := fun _ _ => .refl _ }
    let row : SealedNode := ⟨"n", "concept", "n", ⟨[0xff]⟩, none, default⟩
    let store := Store.commit {} ((Store.begin {} .readWrite).1.stageNode ⟨"acme"⟩ "n" (.put row))
    let w : World := { World.start {} default with store := store }
    let boosted (w : World) : Bool :=
      (w.store.tablesOf ⟨"acme"⟩).nodes["n"]?.any (·.relevance.userBoosted)
    w.store.Reached ∧ w.conditions.others = [] ∧
      ∃ v, e.perform ⟨"acme"⟩ (.boostNode "n") .unbounded w = .error .malformed v ∧
        boosted w = false ∧ boosted v = true ∧
        w.announced = [] ∧ v.announced = [.nodeBoosted ⟨"acme"⟩ "n"] := by
  intro e row store w boosted
  have hmade : ((Store.begin {} .readWrite).1.stageNode ⟨"acme"⟩ "n" (.put row)).Made :=
    .staged {} (.putNode row) ⟨"acme"⟩ (.begun {} .readWrite) rfl
  refine ⟨.committed (.empty rfl) hmade rfl, rfl, ?_⟩
  have hfault : fault? (e.perform ⟨"acme"⟩ (.boostNode "n") .unbounded w) = some .malformed := by
    decide +kernel
  refine ⟨_, eq_error_of_fault? hfault, ?_, ?_, rfl, ?_⟩
  · decide +kernel
  · decide +kernel
  · decide +kernel

end Engine
end SalientGraph
