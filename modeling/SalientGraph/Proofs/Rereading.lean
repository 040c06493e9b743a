import Mathlib.Algebra.Group.Nat.Defs
import SalientGraph.Proofs.Announcements
import SalientGraph.Proofs.Answering
import SalientGraph.Proofs.Traversal.Outcomes
import SalientGraph.Proofs.Undisturbed

/-!
# What is given back is what is read afterwards

Calls that put or rate single entries give these back. What they give back is computed
beside the store: from the entry before it was sealed, or from the row before its update
was staged. The store has its own copy, sealed and updated when the transaction is
committed. Here the two agree: whoever reads an entry right after a call gave it back
gets it once more, just as it was.
-/

namespace SalientGraph

variable {α β : Type} {tenant : Tenant} {t : Tables}

/-! ## Reading single entries -/

/-- Nobody else uses the store, no request fails, and these are the committed rows of a tenant. -/
structure World.Steady (tenant : Tenant) (t : Tables) (w : World) : Prop where
  alone : w.conditions.others = []
  sound : ∀ served r, w.conditions.failure served r = none
  tables : w.store.tablesOf tenant = t

theorem World.placid_steady (tenant : Tenant) (t : Tables) :
    World.Placid tenant t (World.Steady tenant t) where
  alone hw := hw.alone
  sound hw := hw.sound
  tables hw := hw.tables
  advance hw _ := ⟨hw.alone, hw.sound, hw.tables⟩
  served hw := ⟨hw.alone, hw.sound, hw.tables⟩
  begun hw _ := ⟨hw.alone, hw.sound, hw.tables⟩

namespace Engine

open TxAction (SettlesIn reading_settlesIn)
open World (Steady placid_steady)

variable (e : Engine)

/-- The edge with the given key in a graph. -/
def edgeIn (tenant : Tenant) (v : View) (key : EdgeKey) : Except Fault OpenEdge :=
  match v.edge? key with
  | some row => e.openEdge tenant row
  | none => .error (.notFound ("edge " ++ key.text))

/-- A row that is looked for, opened if there is one. -/
def openFound (opened : α → Except Fault β) : Option α → Except Fault (Option β)
  | some row => do return some (← opened row)
  | none => .ok none

/-- What must be there. -/
def present (missing : Fault) : Option α → Except Fault α
  | some entry => .ok entry
  | none => .error missing

theorem nodeIn_eq (v : View) (id : String) :
    openFound (e.openNode tenant) (v.node? id) >>= present (.notFound ("node " ++ id)) =
      e.nodeIn tenant v id := by
  unfold nodeIn
  cases v.node? id with
  | none => rfl
  | some row =>
      dsimp only [openFound]
      cases e.openNode tenant row <;> rfl

theorem edgeIn_eq (v : View) (key : EdgeKey) :
    openFound (e.openEdge tenant) (v.edge? key) >>= present (.notFound ("edge " ++ key.text)) =
      e.edgeIn tenant v key := by
  unfold edgeIn
  cases v.edge? key with
  | none => rfl
  | some row =>
      dsimp only [openFound]
      cases e.openEdge tenant row <;> rfl

theorem settles_requireNode (id : String) :
    SettlesIn (Steady tenant t) (e.requireNode tenant id) (e.nodeIn tenant t.view id) := by
  have hnode : SettlesIn (Steady tenant t) (e.node? tenant id)
      (.ok (t.view.node? id) >>= openFound (e.openNode tenant)) := by
    apply (reading_settlesIn (placid_steady tenant t) .node (·.node? id)).bind
    intro row
    cases row with
    | none => exact .pure none
    | some row =>
        exact (SettlesIn.ofOutcome (e.openNode tenant row)).bind fun node => .pure (some node)
  rw [← nodeIn_eq]
  apply hnode.bind
  intro node
  cases node with
  | none => exact .throw _
  | some node => exact .pure node

/-- A node is read as it is kept. -/
theorem settles_getNode (id : String) :
    Action.SettlesIn (Steady tenant t) (e.getNode tenant id) (e.nodeIn tenant t.view id) :=
  Action.transact_settlesIn (placid_steady tenant t) (e.settles_requireNode id).step

/-- An edge is read as it is kept. -/
theorem settles_getEdge (key : EdgeKey) :
    Action.SettlesIn (Steady tenant t) (e.getEdge tenant key) (e.edgeIn tenant t.view key) := by
  have hedge : SettlesIn (Steady tenant t) (e.edge? tenant key)
      (.ok (t.view.edge? key) >>= openFound (e.openEdge tenant)) := by
    apply (reading_settlesIn (placid_steady tenant t) .edge (·.edge? key)).bind
    intro row
    cases row with
    | none => exact .pure none
    | some row =>
        exact (SettlesIn.ofOutcome (e.openEdge tenant row)).bind fun edge => .pure (some edge)
  rw [← edgeIn_eq]
  apply Action.transact_settlesIn (placid_steady tenant t)
  apply hedge.step.bind
  intro edge
  cases edge with
  | none => exact .throw _
  | some edge => exact .pure edge

end Engine

/-! ## Entries -/

/-- A node or an edge, as callers see it. -/
inductive Entry where
  | node (node : OpenNode)
  | edge (edge : OpenEdge)

namespace Entry

def properties : Entry → Properties
  | node n => n.properties
  | edge x => x.properties

def withProperties (p : Properties) : Entry → Entry
  | node n => .node (n.withProperties p)
  | edge x => .edge (x.withProperties p)

/-- The entry rated anew. -/
def scoredAt (now : Timestamp) : Entry → Entry
  | node n => .node (n.mapRelevance (·.scoredAt now))
  | edge x => .edge (x.mapRelevance (·.scoredAt now))

theorem withProperties_properties (entry : Entry) (now : Timestamp) :
    (entry.scoredAt now).withProperties entry.properties = entry.scoredAt now := by
  cases entry <;> rfl

/-- The call that reads the entry. -/
def reader : Entry → Call
  | node n => .getNode n.id
  | edge x => .getEdge x.key

/-- The answer that consists of the entry. -/
def answer : Entry → Call.Answer
  | node n => .node n
  | edge x => .edge x

theorem properties_of_answer {entry : Entry} {p : Properties}
    (h : (entry.withProperties p).answer = entry.answer) : p = entry.properties := by
  cases entry with
  | node n => exact congrArg Node.properties (Call.Answer.node.inj h)
  | edge x => exact congrArg Edge.properties (Call.Answer.edge.inj h)

end Entry

/-- The single entries that an answer gives back. -/
def Call.Answer.entries : Call.Answer → List Entry
  | .node n => [.node n]
  | .edge x => [.edge x]
  | .nodes ns => ns.map .node
  | _ => []

namespace Engine

variable (e : Engine)

/-- What reading an entry comes to in these tables. -/
def reread (tenant : Tenant) (t : Tables) : Entry → Except Fault Call.Answer
  | .node n => do return .node (← e.nodeIn tenant t.view n.id)
  | .edge x => do return .edge (← e.edgeIn tenant t.view x.key)

theorem reread_scoredAt (entry : Entry) (now : Timestamp) :
    e.reread tenant t (entry.scoredAt now) = e.reread tenant t entry := by
  cases entry <;> rfl

theorem settles_reader (entry : Entry) :
    Action.SettlesIn (World.Steady tenant t) (e.perform tenant entry.reader)
      (e.reread tenant t entry) := by
  cases entry with
  | node n => exact (e.settles_getNode n.id).bind fun node => .pure (Call.Answer.node node)
  | edge x => exact (e.settles_getEdge x.key).bind fun edge => .pure (Call.Answer.edge edge)

/-- The entry is read from the tables just as it is. -/
def Stores (tenant : Tenant) (t : Tables) (entry : Entry) : Prop :=
  e.reread tenant t entry = .ok entry.answer

theorem nodeIn_of_row {id : String} {row : SealedNode} (hrow : t.nodes[id]? = some row) :
    e.nodeIn tenant t.view id = e.openNode tenant row := by
  unfold nodeIn
  rw [View.node?_view, hrow]

theorem edgeIn_of_row {key : EdgeKey} {row : SealedEdge} (hrow : t.edges[key]? = some row) :
    e.edgeIn tenant t.view key = e.openEdge tenant row := by
  unfold edgeIn
  rw [View.edge?_view, hrow]

/-- A node that is stored is one that a row is opened to. -/
theorem stores_node {id : String} {row : SealedNode} {node : OpenNode}
    (hrow : t.nodes[id]? = some row) (hid : row.id = id) (hopen : e.openNode tenant row = .ok node) :
    e.Stores tenant t (.node node) := by
  have hread : e.nodeIn tenant t.view node.id = .ok node := by
    rw [e.id_of_openNode hopen, hid, e.nodeIn_of_row hrow, hopen]
  exact congrArg (· >>= fun n => .ok (Call.Answer.node n)) hread

theorem stores_edge {key : EdgeKey} {row : SealedEdge} {edge : OpenEdge}
    (hrow : t.edges[key]? = some row) (hkey : row.key = key)
    (hopen : e.openEdge tenant row = .ok edge) : e.Stores tenant t (.edge edge) := by
  have hread : e.edgeIn tenant t.view edge.key = .ok edge := by
    rw [e.key_of_openEdge hopen, hkey, e.edgeIn_of_row hrow, hopen]
  exact congrArg (· >>= fun x => .ok (Call.Answer.edge x)) hread

end Engine

/-! ## What calls give back -/

/-- Whether a call gives back the entries that it puts or rates. -/
def Call.givesBack : Call → Bool
  | createNode _ | createEdge _ | boostNode _ | boostEdge _ | supersedeNode _ _
  | recordAccess _ => true
  | _ => false

/-- The entry that a call puts. -/
def Call.created? : Call → Option Entry
  | createNode node => some (.node node)
  | createEdge edge => some (.edge edge)
  | _ => none

/-- What a call answers at `now` about the entries that it puts or rates in these tables. -/
def Call.Gives (now : Timestamp) (t : Tables) : Call → Call.Answer → Prop
  | createNode node, answer => answer = ((Entry.node node).scoredAt now).answer
  | createEdge edge, answer => answer = ((Entry.edge edge).scoredAt now).answer
  | boostNode id, answer => ∃ node, answer = .node node ∧ node.id = id
  | boostEdge key, answer => ∃ edge, answer = .edge edge ∧ edge.key = key
  | supersedeNode old _, answer => ∃ node, answer = .node node ∧ node.id = old
  | recordAccess ids, answer => ∃ nodes, answer = .nodes nodes ∧
      nodes.map Node.id = (distinct ids).filter t.nodes.contains ∧
      ∀ node ∈ nodes, ∃ row, t.nodes[node.id]? = some row ∧
        node.relevance.accessCount.toNat = min (row.relevance.accessCount.toNat + 1) (2 ^ 64 - 1) ∧
        node.relevance.lastAccessed = some now
  | _, _ => True

/-- One access more, up to the largest number of 64 bits. -/
theorem Relevance.toNat_accessCount_accessed (r : Relevance) (t : Timestamp) :
    (r.accessed t).accessCount.toNat = min (r.accessCount.toNat + 1) (2 ^ 64 - 1) := by
  have hbound := r.accessCount.toNat_lt
  unfold accessed
  dsimp only
  split
  · rename_i hzero
    have hfull := congrArg UInt64.toNat hzero
    rw [UInt64.toNat_add] at hfull
    simp at hfull
    omega
  · rename_i hnonzero
    have hless : r.accessCount.toNat + 1 ≠ 2 ^ 64 := by
      intro hfull
      apply hnonzero
      apply UInt64.toNat_inj.1
      rw [UInt64.toNat_add]
      simp
      omega
    rw [UInt64.toNat_add]
    simp
    omega

/-- What is done in a transaction of its own, told of and given back in another form has been
committed if it is answered. -/
theorem Action.published_ok {body : TxAction α} {described : α → (Tenant → Tables) → Prop}
    {tell : α → Action Unit} {events : α → List ChangeEvent} {scope : Scope} {v w : World}
    (hbody : Session.stillness.Obeys body) (hmakes : body.Makes v.wall v.store.tablesOf described)
    (halone : v.conditions.others = []) (hkeyed : v.store.WellKeyed)
    (htell : ∀ a u, tell a scope u = .ok () { u with announced := u.announced ++ events a })
    {outcome : α → Except Fault β} {b : β}
    (h : published body tell outcome scope v = .ok b w) :
    ∃ a graphs, described a graphs ∧ outcome a = .ok b ∧ v.Becomes graphs (events a) w := by
  rcases published_cases hbody hmakes halone hkeyed htell outcome with
    ⟨g, u, hrun, _⟩ | ⟨a, graphs, u, hmade, hu, hrun⟩
  · cases hrun.symm.trans h
  · have hanswered := hrun.symm.trans h
    cases houtcome : outcome a with
    | error g =>
        rw [houtcome] at hanswered
        cases hanswered
    | ok c =>
        rw [houtcome] at hanswered
        cases hanswered
        exact ⟨a, graphs, hmade, houtcome, hu⟩

namespace Engine

open SalientGraph.Action (published_ok transact_makes)

variable (e : Engine) {scope : Scope} {v w : World}

section
variable {e : Engine}

/-- In a calm world, a node is accepted whatever its properties, under a cipher that seals all. -/
theorem answers_createNode
    (hseals : ∀ nonce bytes, ∃ sealed, e.cipher.encrypt nonce tenant bytes = .ok sealed)
    {node : OpenNode} (hnode : checkNode node = .ok ()) :
    Answers scope (e.createNode tenant node) (World.Calm scope) fun _ => World.Calm scope := by
  have hchecked : Answers scope (Action.ofOutcome (checkNode node)) (World.Calm scope)
      fun _ => World.Calm scope := by
    rw [hnode]
    exact .pure fun _ h => h
  have hnow : Answers scope Action.now (World.Calm scope) fun _ => World.Calm scope :=
    fun w hw => ⟨_, w, rfl, hw⟩
  have hsealed : ∀ properties, Answers scope (e.sealPayload tenant properties)
      (World.Calm scope) fun _ => World.Calm scope := by
    intro properties w hw
    obtain ⟨bytes, hbytes⟩ :=
      hseals (e.nonce w.draws) (Bytes.ofString (Json.ofProperties properties).render)
    have hdraw : Action.draw scope w = .ok w.draws { w with draws := w.draws + 1 } := rfl
    refine ⟨⟨bytes⟩, { w with draws := w.draws + 1 }, ?_, hw.failure, hw.delay, hw.live⟩
    unfold sealPayload
    rw [bind_apply_of_ok hdraw, hbytes]
    rfl
  apply Action.answers_transact Action.answers_check Action.answers_begin _ Action.answers_commit
  apply TxAction.answers_step Action.answers_check
  apply (TxAction.answers_inTransaction hchecked).bind
  intro _
  apply (TxAction.answers_inTransaction hnow).bind
  intro now
  apply (TxAction.answers_inTransaction (hsealed _)).bind
  intro payload
  exact (TxAction.answers_writing (Action.answers_request _) (TxAction.own_putNode _)).bind
    fun _ => .pure fun _ h => h

end

/-- A node that a call has rated is stored as it is opened from the rating. -/
theorem stores_rated {call : Call} (hcall : ∀ key, call ≠ .boostEdge key) {now : Timestamp}
    {events : List ChangeEvent} (hkeyed : v.store.WellKeyed)
    (hw : v.Becomes (Write.applyEachAt (call.updates now (v.store.tablesOf tenant)) tenant
      v.store.tablesOf) events w)
    {r : Rating} (hr : r ∈ call.ratings now (v.store.tablesOf tenant)) {node : OpenNode}
    (hopen : e.openNode tenant r.rated = .ok node) :
    e.Stores tenant (w.store.tablesOf tenant) (.node node) := by
  have hupdates : call.updates now (v.store.tablesOf tenant) =
      (call.ratings now (v.store.tablesOf tenant)).map Rating.write := by
    rw [Call.updates]
    exact fun key h => hcall key h
  rw [hw.tables, Write.applyEachAt_self, hupdates]
  exact e.stores_node (((hkeyed tenant).fit_ratings now call).getElem?_applyEach r hr) rfl hopen

/-- The existing nodes of those asked for, each with an access more. -/
theorem gives_recordAccess {now : Timestamp} {ids : List String} (ht : t.WellKeyed)
    {nodes : List OpenNode} (hopen : e.openNodes tenant
      (((Call.recordAccess ids).ratings now t).map Rating.rated) = .ok nodes) :
    (Call.recordAccess ids).Gives now t (.nodes nodes) := by
  refine ⟨nodes, rfl, ?_, ?_⟩
  · have hfound : ∀ id, (t.nodes[id]?).map Node.id = Option.guard t.nodes.contains id := by
      intro id
      rw [Option.guard, Std.ExtTreeMap.contains_eq_isSome_getElem?]
      cases hrow : t.nodes[id]? with
      | none => rfl
      | some row => exact congrArg some (ht.nodes hrow)
    calc nodes.map Node.id
      _ = ((distinct ids).filterMap (t.nodes[·]?)).map Node.id := by
        rw [e.ids_of_openNodes hopen, Call.ratings, List.map_map, List.map_map]
        rfl
      _ = (distinct ids).filterMap (Option.guard t.nodes.contains) := by
        rw [List.map_filterMap]
        exact congrArg (List.filterMap · _) (funext hfound)
      _ = (distinct ids).filter t.nodes.contains := by rw [List.filterMap_eq_filter]
  · intro node hnode
    obtain ⟨rated, hrated, hone⟩ := exists_of_mem_mapM_eq_ok hopen node hnode
    obtain ⟨r, hr, rfl⟩ := List.mem_map.1 hrated
    obtain ⟨row, hrow, rfl⟩ := List.mem_map.1 hr
    obtain ⟨id, _, hfound⟩ := List.mem_filterMap.1 hrow
    have hkey : row.id = id := ht.nodes hfound
    have hid : node.id = id := (e.id_of_openNode hone).trans hkey
    refine ⟨row, by rw [hid]; exact hfound, ?_, ?_⟩
    · rw [e.relevance_of_openNode hone]
      exact row.relevance.toNat_accessCount_accessed now
    · rw [e.relevance_of_openNode hone]
      rfl

section
variable (halone : v.conditions.others = []) (hkeyed : v.store.WellKeyed)
include halone hkeyed

theorem boostNode_ok {id : String} {node : OpenNode}
    (h : e.boostNode tenant id scope v = .ok node w) :
    node.id = id ∧ e.Stores tenant (w.store.tablesOf tenant) (.node node) := by
  have hbody := (TxAction.editable_stillness tenant).boostRow id
  rw [boostNode_eq_boostRow] at h
  obtain ⟨rated, graphs, ⟨row, time, hrow, rfl, rfl⟩, hopen, hw⟩ :=
    published_ok hbody (makes_boostRow id) halone hkeyed (fun _ _ => rfl) h
  have hid : row.id = id := (hkeyed tenant).nodes hrow
  constructor
  · rw [e.id_of_openNode hopen]
    exact hid
  · apply e.stores_rated (by rintro _ ⟨⟩) hkeyed hw _ hopen
    rw [Call.ratings_boostNode hrow]
    exact List.mem_cons_self

theorem boostEdge_ok {key : EdgeKey} {edge : OpenEdge}
    (h : e.boostEdge tenant key scope v = .ok edge w) :
    edge.key = key ∧ e.Stores tenant (w.store.tablesOf tenant) (.edge edge) := by
  have hbody := (TxAction.editable_stillness tenant).boostEdgeRow key
  rw [boostEdge_eq_boostEdgeRow] at h
  obtain ⟨rated, graphs, ⟨row, time, hrow, rfl, rfl⟩, hopen, hw⟩ :=
    published_ok hbody (makes_boostEdgeRow key) halone hkeyed (fun _ _ => rfl) h
  have hkey : row.key = key := (hkeyed tenant).edges hrow
  constructor
  · rw [e.key_of_openEdge hopen]
    exact hkey
  · rw [hw.tables, Write.applyEachAt_self, Call.updates, hrow]
    have hstored : ((v.store.tablesOf tenant).edges.modify key
        ((RelevanceUpdate.ofBoost (v.wall time)).plan row).1.applyTo)[key]? =
          some ((RelevanceUpdate.ofBoost (v.wall time)).plan row).2 := by
      rw [Std.ExtTreeMap.getElem?_modify_self, hrow]
      rfl
    exact e.stores_edge hstored hkey hopen

theorem supersedeNode_ok {old new : String} {node : OpenNode}
    (h : e.supersedeNode tenant old new scope v = .ok node w) :
    node.id = old ∧ e.Stores tenant (w.store.tablesOf tenant) (.node node) := by
  unfold supersedeNode at h
  by_cases hne : old = new
  · rw [if_pos hne] at h
    cases h
  · rw [if_neg hne] at h
    have hbody := (TxAction.editable_stillness tenant).succeed old new
    obtain ⟨rated, graphs, ⟨row, successor, time, hold, hnew, rfl, rfl⟩, hopen, hw⟩ :=
      published_ok hbody (makes_succeed hne) halone hkeyed (fun _ _ => rfl) h
    have hid : row.id = old := (hkeyed tenant).nodes hold
    constructor
    · rw [e.id_of_openNode hopen]
      exact hid
    · apply e.stores_rated (by rintro _ ⟨⟩) hkeyed hw _ hopen
      rw [Call.ratings_supersedeNode hne hold hnew]
      exact List.mem_cons_self

theorem recordAccess_ok {ids : List String} {nodes : List OpenNode}
    (h : e.recordAccess tenant ids scope v = .ok nodes w) :
    (∃ time, (Call.recordAccess ids).Gives (v.wall time) (v.store.tablesOf tenant)
        (.nodes nodes)) ∧
      ∀ node ∈ nodes, e.Stores tenant (w.store.tablesOf tenant) (.node node) := by
  rw [recordAccess_eq_tellAccesses] at h
  by_cases hempty : (distinct ids).isEmpty = true
  · rw [if_pos hempty] at h
    cases h
    have hnone : distinct ids = [] := List.isEmpty_iff.1 hempty
    refine ⟨⟨0, [], rfl, ?_, fun _ hnode => (List.not_mem_nil hnode).elim⟩,
      fun _ hnode => (List.not_mem_nil hnode).elim⟩
    rw [hnone]
    rfl
  · rw [if_neg hempty] at h
    -- the rows are updated on their way to the answer and once more in the store
    have hbody := (TxAction.editable_stillness tenant).count (distinct ids)
    obtain ⟨rated, graphs, ⟨time, rfl, rfl⟩, hopen, hw⟩ :=
      published_ok hbody (makes_count ids) halone hkeyed
        (fun rows => tellAccesses_apply tenant (rows.map Node.id) scope) h
    refine ⟨⟨time, e.gives_recordAccess (hkeyed tenant) hopen⟩, ?_⟩
    intro node hnode
    obtain ⟨rated, hrated, hone⟩ := exists_of_mem_mapM_eq_ok hopen node hnode
    obtain ⟨r, hr, rfl⟩ := List.mem_map.1 hrated
    exact e.stores_rated (by rintro _ ⟨⟩) hkeyed hw hr hone

/-- A node that a call has put is opened from what it has been sealed to. -/
theorem createNode_ok {node given : OpenNode} (h : e.createNode tenant node scope v = .ok given w) :
    ∃ time payload, given = node.mapRelevance (·.scoredAt (v.wall time)) ∧
      e.Seals tenant node.properties payload ∧
      e.nodeIn tenant (w.store.tablesOf tenant).view node.id =
        (e.openPayload tenant payload).map given.withProperties := by
  have hedit := TxAction.editable_stillness tenant
  rcases transact_makes (hedit.step (hedit.putNode e node)) (makes_putNode e node).step halone
    hkeyed scope with ⟨f, u, hrun, _⟩ | ⟨rated, graphs, u, hrun, hmade, hu⟩
  · cases hrun.symm.trans h
  · cases hrun.symm.trans h
    obtain ⟨_, time, payload, hsealed, rfl, rfl⟩ := hmade
    refine ⟨time, payload, rfl, hsealed, ?_⟩
    have hrow : (w.store.tablesOf tenant).nodes[node.id]? =
        some ((node.mapRelevance (·.scoredAt (v.wall time))).withProperties payload) := by
      rw [hu.tables, Write.applyAt_self]
      exact Std.ExtTreeMap.getElem?_insert_self
    rw [e.nodeIn_of_row hrow]
    rfl

theorem createEdge_ok {edge given : OpenEdge} (h : e.createEdge tenant edge scope v = .ok given w) :
    ∃ time payload, given = edge.mapRelevance (·.scoredAt (v.wall time)) ∧
      e.Seals tenant edge.properties payload ∧
      e.edgeIn tenant (w.store.tablesOf tenant).view edge.key =
        (e.openPayload tenant payload).map given.withProperties := by
  have hedit := TxAction.editable_stillness tenant
  rcases transact_makes (hedit.step (hedit.putEdge e edge)) (makes_putEdge e edge).step halone
    hkeyed scope with ⟨f, u, hrun, _⟩ | ⟨rated, graphs, u, hrun, hmade, hu⟩
  · cases hrun.symm.trans h
  · cases hrun.symm.trans h
    obtain ⟨time, payload, hsealed, rfl, rfl⟩ := hmade
    refine ⟨time, payload, rfl, hsealed, ?_⟩
    have hrow : (w.store.tablesOf tenant).edges[edge.key]? =
        some ((edge.mapRelevance (·.scoredAt (v.wall time))).withProperties payload) := by
      rw [hu.tables, Write.applyAt_self]
      exact Std.ExtTreeMap.getElem?_insert_self
    rw [e.edgeIn_of_row hrow]
    rfl

/-- What a call has put is rated anew, and is read with the properties that its payload is opened
to. -/
theorem perform_created {call : Call} {given : Entry} (hcall : call.created? = some given)
    {answer : Call.Answer} (h : e.perform tenant call scope v = .ok answer w) :
    ∃ time payload, answer = (given.scoredAt (v.wall time)).answer ∧
      e.Seals tenant given.properties payload ∧
      e.reread tenant (w.store.tablesOf tenant) given = (e.openPayload tenant payload).map
        fun p => ((given.scoredAt (v.wall time)).withProperties p).answer := by
  cases call with
  | createNode node =>
      cases hcall
      obtain ⟨created, u, hrun, hdone⟩ := exists_of_bind_eq_ok h
      cases hdone
      obtain ⟨time, payload, rfl, hsealed, hread⟩ := e.createNode_ok halone hkeyed hrun
      refine ⟨time, payload, rfl, hsealed, ?_⟩
      show (e.nodeIn tenant (w.store.tablesOf tenant).view node.id >>= _) = _
      rw [hread]
      cases e.openPayload tenant payload <;> rfl
  | createEdge edge =>
      cases hcall
      obtain ⟨created, u, hrun, hdone⟩ := exists_of_bind_eq_ok h
      cases hdone
      obtain ⟨time, payload, rfl, hsealed, hread⟩ := e.createEdge_ok halone hkeyed hrun
      refine ⟨time, payload, rfl, hsealed, ?_⟩
      show (e.edgeIn tenant (w.store.tablesOf tenant).view edge.key >>= _) = _
      rw [hread]
      cases e.openPayload tenant payload <;> rfl
  | getNode | getEdge | removeNode | removeEdge | boostNode | boostEdge | supersedeNode
  | recordAccess | neighbors | traverse | context | shortestPath | fullTextSearch | semanticSearch
  | hybridSearch | recalculate => contradiction

variable (hopens : e.cipher.Opens) (hnonempty : e.cipher.NeverEmpty)
include hopens hnonempty

/-- What a call has put is stored as the call gives it back, if its properties are legible. -/
theorem stores_created {call : Call} {given : Entry} (hcall : call.created? = some given)
    (hlegible : given.properties.Legible) {answer : Call.Answer}
    (h : e.perform tenant call scope v = .ok answer w) :
    ∃ time, answer = (given.scoredAt (v.wall time)).answer ∧
      e.Stores tenant (w.store.tablesOf tenant) (given.scoredAt (v.wall time)) := by
  obtain ⟨time, payload, hanswer, hsealed, hread⟩ := e.perform_created halone hkeyed hcall h
  rw [(hsealed.openPayload_eq_ok_iff hopens hnonempty).2 hlegible] at hread
  refine ⟨time, hanswer, ?_⟩
  unfold Stores
  rw [reread_scoredAt, hread, Except.map, given.withProperties_properties]

theorem perform_gives {call : Call} (hcall : call.givesBack = true)
    (hlegible : ∀ given, call.created? = some given → given.properties.Legible)
    {answer : Call.Answer} (h : e.perform tenant call scope v = .ok answer w) :
    (∃ time, call.Gives (v.wall time) (v.store.tablesOf tenant) answer) ∧
      ∀ entry ∈ answer.entries, e.Stores tenant (w.store.tablesOf tenant) entry := by
  have hone : ∀ {entry other : Entry}, e.Stores tenant (w.store.tablesOf tenant) entry →
      other ∈ [entry] → e.Stores tenant (w.store.tablesOf tenant) other := by
    intro entry other hstored hother
    rw [List.mem_singleton.1 hother]
    exact hstored
  cases call with
  | createNode node =>
      obtain ⟨time, rfl, hstored⟩ := e.stores_created halone hkeyed hopens hnonempty rfl
        (hlegible _ rfl) h
      exact ⟨⟨time, rfl⟩, fun _ => hone hstored⟩
  | createEdge edge =>
      obtain ⟨time, rfl, hstored⟩ := e.stores_created halone hkeyed hopens hnonempty rfl
        (hlegible _ rfl) h
      exact ⟨⟨time, rfl⟩, fun _ => hone hstored⟩
  | boostNode id =>
      obtain ⟨given, u, hrun, hdone⟩ := exists_of_bind_eq_ok h
      cases hdone
      obtain ⟨hid, hstored⟩ := e.boostNode_ok halone hkeyed hrun
      exact ⟨⟨0, given, rfl, hid⟩, fun _ => hone hstored⟩
  | boostEdge key =>
      obtain ⟨given, u, hrun, hdone⟩ := exists_of_bind_eq_ok h
      cases hdone
      obtain ⟨hkey, hstored⟩ := e.boostEdge_ok halone hkeyed hrun
      exact ⟨⟨0, given, rfl, hkey⟩, fun _ => hone hstored⟩
  | supersedeNode old new =>
      obtain ⟨given, u, hrun, hdone⟩ := exists_of_bind_eq_ok h
      cases hdone
      obtain ⟨hid, hstored⟩ := e.supersedeNode_ok halone hkeyed hrun
      exact ⟨⟨0, given, rfl, hid⟩, fun _ => hone hstored⟩
  | recordAccess ids =>
      obtain ⟨given, u, hrun, hdone⟩ := exists_of_bind_eq_ok h
      cases hdone
      obtain ⟨hgives, hstored⟩ := e.recordAccess_ok halone hkeyed hrun
      refine ⟨hgives, ?_⟩
      intro entry hentry
      obtain ⟨node, hnode, rfl⟩ := List.mem_map.1 hentry
      exact hstored node hnode
  | getNode | getEdge | removeNode | removeEdge | neighbors | traverse | context | shortestPath
  | fullTextSearch | semanticSearch | hybridSearch | recalculate => contradiction

end

/-- A call that is answered has been performed on the tables that it found. -/
theorem exists_run_of_serve {w : World} (hstore : w.store.Reached) {o : Occasion}
    {answer : Call.Answer} (h : (e.serve o w).1.outcome = .ok answer) :
    e.perform o.tenant o.call o.scope (w.arrive o) = .ok answer (e.serve o w).2 ∧
      (w.arrive o).store.WellKeyed := by
  refine ⟨?_, hstore.wellKeyed⟩
  rw [e.serve_eq] at h ⊢
  obtain ⟨v, hrun⟩ := exists_ok_of_outcomeOf h
  rw [hrun]
  rfl

/-- Served in a calm world, the creation of a node that may be put is answered. -/
theorem exists_created_of_calm {w : World} {o : Occasion}
    (hseals : ∀ nonce bytes, ∃ sealed, e.cipher.encrypt nonce o.tenant bytes = .ok sealed)
    {node : OpenNode} (hnode : checkNode node = .ok ()) (hcalm : (w.arrive o).Calm o.scope)
    (hcall : o.call = .createNode node) :
    ∃ created, (e.serve o w).1.outcome = .ok (.node created) := by
  obtain ⟨created, v, hrun, -⟩ := answers_createNode hseals hnode _ hcalm
  have hperform : e.perform o.tenant o.call o.scope (w.arrive o) = .ok (.node created) v := by
    rw [hcall]
    exact bind_apply_of_ok hrun
  refine ⟨created, ?_⟩
  rw [e.serve_eq, hperform]
  rfl

/-- Whoever reads an entry gets what reading it comes to in the tables, if the store answers and the
time suffices. -/
theorem serve_reader {w : World} {o : Occasion} {entry : Entry} (hreader : o.call = entry.reader)
    (hsound : ∀ served r, o.conditions.failure served r = none)
    (hlasts : o.scope.Outlasts (e.perform o.tenant o.call) (w.arrive o)) :
    (e.serve o w).1.outcome = e.reread o.tenant (w.store.tablesOf o.tenant) entry := by
  have hsteady : World.Steady o.tenant (w.store.tablesOf o.tenant) (w.arrive o) :=
    ⟨o.alone, hsound, rfl⟩
  rw [e.serve_eq]
  rw [hreader] at hlasts ⊢
  exact (e.settles_reader entry o.scope _ hsteady).outcome hlasts

/-- Alone on any store that can come about, under any cipher that opens what it seals and never
seals to nothing, a call that puts or rates entries answers with what whoever reads them right
afterwards gets, if the store answers and the time suffices. Puts answer with what they were given,
rated anew, and accesses with the existing nodes, each with an access more. -/
theorem answers_are_read_back (hopens : e.cipher.Opens) (hnonempty : e.cipher.NeverEmpty)
    (w : World) (hstore : w.store.Reached) (o : Occasion) (hcall : o.call.givesBack = true)
    (hlegible : ∀ given, o.call.created? = some given → given.properties.Legible)
    (answer : Call.Answer) (hanswer : (e.serve o w).1.outcome = .ok answer) :
    (∃ time, o.call.Gives (o.wall time) (w.store.tablesOf o.tenant) answer) ∧
      ∀ entry ∈ answer.entries, ∀ o' : Occasion, o'.tenant = o.tenant → o'.call = entry.reader →
        (∀ served r, o'.conditions.failure served r = none) →
        o'.scope.Outlasts (e.perform o'.tenant o'.call) ((e.serve o w).2.arrive o') →
        (e.serve o' (e.serve o w).2).1.outcome = .ok entry.answer := by
  obtain ⟨hrun, hkeyed⟩ := e.exists_run_of_serve hstore hanswer
  obtain ⟨hgives, hstored⟩ := e.perform_gives o.alone hkeyed hopens hnonempty hcall hlegible hrun
  refine ⟨hgives, ?_⟩
  intro entry hentry o' htenant hreader hsound hlasts
  rw [e.serve_reader hreader hsound hlasts, htenant]
  exact hstored entry hentry

/-- A node with a list among its properties is created and read. -/
theorem answers_are_read_back_after_a_creation :
    let e : Engine :=
      { config := {}, cipher := .marking
        nonce := fun _ => [], shuffle := fun _ ids => ids, shuffle_perm := fun _ _ => .refl _ }
    let node : OpenNode :=
      ⟨"n", "person", "n", Json.properties [("x", .array [.nat 1])], none, default⟩
    let o : Occasion :=
      ⟨⟨"acme"⟩, .createNode node, .unbounded, 0, fun _ => default, 0, 0, {}, rfl⟩
    let o' : Occasion := { o with call := .getNode "n" }
    let w : World := World.start {} default
    let given : OpenNode := node.mapRelevance (·.scoredAt default)
    (e.serve o w).1.outcome = .ok (.node given) ∧
      (e.serve o' (e.serve o w).2).1.outcome = .ok (.node given) := by
  intro e node o o' w given
  have hmembers : node.properties.toList = [("x", .array [.nat 1])] :=
    Json.toList_properties (List.pairwise_singleton _ _)
  have hlegible : node.properties.Legible := by
    apply Properties.legible_of_levels_le
    · unfold Properties.Sound
      rw [hmembers]
      exact ⟨⟨Json.legible_whole (by decide) (by decide), trivial⟩, trivial⟩
    · unfold Properties.levels Json.ofProperties
      rw [hmembers]
      decide
  have hnode : checkNode node = .ok () := by
    decide +kernel
  have hcalm : (w.arrive o).Calm o.scope :=
    ⟨fun _ _ => rfl, fun _ _ => rfl, Scope.check_unbounded _⟩
  obtain ⟨created, hanswer⟩ := e.exists_created_of_calm (fun _ _ => ⟨_, rfl⟩) hnode hcalm rfl
  obtain ⟨⟨_, hgiven⟩, hread⟩ := answers_are_read_back e Cipher.opens_marking
    Cipher.neverEmpty_marking w (.empty rfl) o rfl (by rintro _ ⟨⟩; exact hlegible) _ hanswer
  cases hgiven
  exact ⟨hanswer, hread (.node given) List.mem_cons_self o' rfl rfl (fun _ _ => rfl)
    (Scope.check_unbounded _)⟩

end Engine

end SalientGraph
