import SalientGraph.Proofs.Atomicity
import SalientGraph.Proofs.Doubles

/-!
# What calls do to rows at one instant

A call that changes salience does one of three things to an entry: it leaves it alone,
rates it anew if its score has changed, or changes an input of the formula and rates it
in any case. At one point in time these commute, unless two calls name different
successors of one node: inputs are changed independently of each other, and a row that
was just rated has the score of the formula.
-/

namespace SalientGraph

/-- What is done to the relevance of an entry. -/
inductive Touch where
  | leave
  /-- The entry is rated anew if its score has changed. -/
  | refresh
  /-- The inputs of an update are taken over, and the entry is rated anew. -/
  | rate (u : RelevanceUpdate)

namespace Touch

/-- The relevance after a touch at `now`. -/
def act (now : Timestamp) : Touch → Relevance → Relevance
  | leave, r => r
  | refresh, r => (r.refreshed? now).getD r
  | rate u, r => (u.applyInputs r).scoredAt now

/-- Not both touches name a successor, and both count accesses at the same time if they do. -/
structure Compatible (a b : Touch) : Prop where
  successor : ∀ u v, a = rate u → b = rate v → u.supersededBy = none ∨ v.supersededBy = none
  access : ∀ u v s t, a = rate u → b = rate v → u.accessedAt = some s → v.accessedAt = some t →
    s = t

end Touch

/-! ## Rating -/

namespace RelevanceUpdate

/-- To change the inputs and to write down a score are independent. -/
theorem applyInputs_rescored (u : RelevanceUpdate) (r : Relevance) (s : Double) (t : Timestamp) :
    u.applyInputs (r.rescored s t) = (u.applyInputs r).rescored s t := by
  obtain ⟨salience, updatedAt, boost, supersededBy, accessedAt⟩ := u
  cases boost <;> cases supersededBy <;> cases accessedAt <;> rfl

/-- Different inputs are changed independently. -/
theorem applyInputs_comm {u v : RelevanceUpdate}
    (hsuccessor : u.supersededBy = none ∨ v.supersededBy = none)
    (haccess : ∀ t t', u.accessedAt = some t → v.accessedAt = some t' → t = t') (r : Relevance) :
    u.applyInputs (v.applyInputs r) = v.applyInputs (u.applyInputs r) := by
  obtain ⟨_, _, boost, successor, access⟩ := u
  obtain ⟨_, _, boost', successor', access'⟩ := v
  cases access with
  | none =>
      rcases hsuccessor with rfl | rfl
      · cases boost <;> cases boost' <;> cases successor' <;> cases access' <;> rfl
      · cases boost <;> cases boost' <;> cases successor <;> cases access' <;> rfl
  | some t =>
      cases access' with
      | none =>
          rcases hsuccessor with rfl | rfl
          · cases boost <;> cases boost' <;> cases successor' <;> rfl
          · cases boost <;> cases boost' <;> cases successor <;> rfl
      | some t' =>
          obtain rfl := haccess t t' rfl rfl
          rcases hsuccessor with rfl | rfl
          · cases boost <;> cases boost' <;> cases successor' <;> rfl
          · cases boost <;> cases boost' <;> cases successor <;> rfl

end RelevanceUpdate

namespace Relevance

variable (now : Timestamp) (r : Relevance)

/-- A score that was just written down is the score. -/
theorem refreshed?_scoredAt : (r.scoredAt now).refreshed? now = none := by
  unfold refreshed?
  rw [if_neg]
  show ¬ differs (Double.ofFloat (r.score now)).toFloat (r.score now) = true
  rw [Double.toFloat_ofFloat, differs_self]
  exact Bool.false_ne_true

/-- To rate an entry anew writes down a score, or leaves it alone. -/
theorem getD_refreshed?_cases :
    (r.refreshed? now).getD r = r ∨ (r.refreshed? now).getD r = r.scoredAt now := by
  unfold refreshed?
  split
  · exact .inr rfl
  · exact .inl rfl

end Relevance

namespace Touch

variable {now : Timestamp}

/-- What was rated is as good as rated anew. -/
theorem act_refresh_scoredAt (r : Relevance) :
    refresh.act now (r.scoredAt now) = r.scoredAt now := by
  rw [act, Relevance.refreshed?_scoredAt, Option.getD_none]

/-- A rating makes no use of the score that it finds. -/
theorem act_rate_rescored (u : RelevanceUpdate) (r : Relevance) (s : Double) (t : Timestamp) :
    (rate u).act now (r.rescored s t) = (rate u).act now r := by
  rw [act, RelevanceUpdate.applyInputs_rescored]
  rfl

theorem act_rate_refresh (u : RelevanceUpdate) (r : Relevance) :
    (rate u).act now (refresh.act now r) = (rate u).act now r := by
  rcases Relevance.getD_refreshed?_cases now r with h | h
  · rw [act, h]
  · rw [act, h]
    exact act_rate_rescored u r _ now

/-- Touches at one point in time commute, as far as they are compatible. -/
theorem act_comm {a b : Touch} (h : a.Compatible b) (r : Relevance) :
    a.act now (b.act now r) = b.act now (a.act now r) := by
  cases a with
  | leave => rfl
  | refresh =>
      cases b with
      | leave => rfl
      | refresh => rfl
      | rate u =>
          rw [act_rate_refresh]
          exact act_refresh_scoredAt _
  | rate u =>
      cases b with
      | leave => rfl
      | refresh =>
          rw [act_rate_refresh]
          exact (act_refresh_scoredAt _).symm
      | rate v =>
          have hu : (rate u).act now ((v.applyInputs r).scoredAt now) =
              (rate u).act now (v.applyInputs r) := act_rate_rescored u _ _ now
          have hv : (rate v).act now ((u.applyInputs r).scoredAt now) =
              (rate v).act now (u.applyInputs r) := act_rate_rescored v _ _ now
          have hinputs := RelevanceUpdate.applyInputs_comm (h.successor u v rfl rfl)
            (fun s t => h.access u v s t rfl rfl) r
          calc (rate u).act now ((rate v).act now r)
            _ = (u.applyInputs (v.applyInputs r)).scoredAt now := hu
            _ = (v.applyInputs (u.applyInputs r)).scoredAt now := by rw [hinputs]
            _ = (rate v).act now ((rate u).act now r) := hv.symm

end Touch

/-! ## Tables -/

namespace Tables

variable {now : Timestamp}

/-- The tables after a touch of each entry. -/
def touch (now : Timestamp) (node : String → Touch) (edge : EdgeKey → Touch) (t : Tables) : Tables where
  nodes := t.nodes.map fun id row => row.mapRelevance ((node id).act now)
  edges := t.edges.map fun key row => row.mapRelevance ((edge key).act now)

theorem ext_getElem? {s t : Tables} (hnodes : ∀ id : String, s.nodes[id]? = t.nodes[id]?)
    (hedges : ∀ key : EdgeKey, s.edges[key]? = t.edges[key]?) : s = t := by
  cases s
  cases t
  cases Std.ExtTreeMap.ext_getElem? hnodes
  cases Std.ExtTreeMap.ext_getElem? hedges
  rfl

@[simp] theorem getElem?_nodes_touch (node : String → Touch) (edge : EdgeKey → Touch) (t : Tables)
    (id : String) : (t.touch now node edge).nodes[id]? =
      t.nodes[id]?.map (·.mapRelevance ((node id).act now)) := by
  unfold touch
  rw [Std.ExtTreeMap.getElem?_map]

@[simp] theorem getElem?_edges_touch (node : String → Touch) (edge : EdgeKey → Touch) (t : Tables)
    (key : EdgeKey) : (t.touch now node edge).edges[key]? =
      t.edges[key]?.map (·.mapRelevance ((edge key).act now)) := by
  unfold touch
  rw [Std.ExtTreeMap.getElem?_map]

/-- Touches of all entries commute if those of each entry do. -/
theorem touch_comm {node node' : String → Touch} {edge edge' : EdgeKey → Touch}
    (hnode : ∀ id, (node id).Compatible (node' id))
    (hedge : ∀ key, (edge key).Compatible (edge' key)) (t : Tables) :
    (t.touch now node edge).touch now node' edge' = (t.touch now node' edge').touch now node edge := by
  apply ext_getElem?
  · intro id
    simp only [getElem?_nodes_touch, Option.map_map]
    congr 1
    funext row
    exact congrArg (fun r => { row with relevance := r })
      (Touch.act_comm (hnode id) row.relevance).symm
  · intro key
    simp only [getElem?_edges_touch, Option.map_map]
    congr 1
    funext row
    exact congrArg (fun r => { row with relevance := r })
      (Touch.act_comm (hedge key) row.relevance).symm

end Tables

/-! ## Calls -/

namespace Call

variable (now : Timestamp)

/-- What a call does to a node, if it finds what it asks for. -/
def nodeTouch : Call → String → Touch
  | boostNode id, other => if other = id then .rate (.ofBoost now) else .leave
  | supersedeNode old new, other =>
    if other = old then .rate (.ofSuccessor now new)
    else if other = new then .rate (.unscored now)
    else .leave
  | recordAccess ids, other => if other ∈ ids then .rate (.ofAccess now) else .leave
  | recalculate, _ => .refresh
  | _, _ => .leave

/-- What a call does to an edge, if it finds what it asks for. -/
def edgeTouch : Call → EdgeKey → Touch
  | boostEdge key, other => if other = key then .rate (.ofBoost now) else .leave
  | _, _ => .leave

/-- The tables after a call that finds what it asks for. -/
def applied (call : Call) (t : Tables) : Tables :=
  t.touch now (call.nodeTouch now) (call.edgeTouch now)

/-- The node that a call marks as superseded. -/
def superseded? : Call → Option String
  | supersedeNode old _ => some old
  | _ => none

variable {now}

/-- A successor is named for the superseded node only. -/
theorem superseded?_of_nodeTouch {call : Call} {id : String} {u : RelevanceUpdate}
    (h : call.nodeTouch now id = .rate u) :
    (u.supersededBy = none ∨ call.superseded? = some id) ∧
      ∀ t, u.accessedAt = some t → t = now := by
  cases call with
  | boostNode other =>
      rw [nodeTouch] at h
      split at h
      · cases h
        exact ⟨.inl rfl, fun _ ht => by cases ht⟩
      · cases h
  | supersedeNode old new =>
      rw [nodeTouch] at h
      split at h
      · rename_i hold
        cases h
        exact ⟨.inr (congrArg some hold.symm), fun _ ht => by cases ht⟩
      · split at h
        · cases h
          exact ⟨.inl rfl, fun _ ht => by cases ht⟩
        · cases h
  | recordAccess ids =>
      rw [nodeTouch] at h
      split at h
      · cases h
        exact ⟨.inl rfl, fun _ ht => (Option.some.inj ht).symm⟩
      · cases h
  | recalculate => cases h
  | createNode | createEdge | getNode | getEdge | removeNode | removeEdge | neighbors | traverse
  | context | shortestPath | fullTextSearch | semanticSearch | hybridSearch | boostEdge => cases h

theorem accessedAt_of_edgeTouch {call : Call} {key : EdgeKey} {u : RelevanceUpdate}
    (h : call.edgeTouch now key = .rate u) : u.supersededBy = none ∧ u.accessedAt = none := by
  cases call with
  | boostEdge other =>
      rw [edgeTouch] at h
      split at h
      · cases h
        exact ⟨rfl, rfl⟩
      · cases h
  | createNode | createEdge | getNode | getEdge | removeNode | removeEdge | neighbors | traverse
  | context | shortestPath | fullTextSearch | semanticSearch | hybridSearch | boostNode
  | supersedeNode | recordAccess | recalculate => cases h

/-- Two calls commute, unless they name successors of the same node. -/
theorem applied_comm {call call' : Call}
    (h : ∀ id, call.superseded? = some id → call'.superseded? ≠ some id) (t : Tables) :
    call'.applied now (call.applied now t) = call.applied now (call'.applied now t) := by
  apply Tables.touch_comm
  · intro id
    constructor
    · intro u u' hu hu'
      rcases (superseded?_of_nodeTouch hu).1 with hnone | hmarks
      · exact .inl hnone
      · rcases (superseded?_of_nodeTouch hu').1 with hnone | hmarks'
        · exact .inr hnone
        · exact absurd hmarks' (h id hmarks)
    · intro u u' t t' hu hu' ht ht'
      rw [(superseded?_of_nodeTouch hu).2 t ht, (superseded?_of_nodeTouch hu').2 t' ht']
  · intro key
    constructor
    · intro u _ hu _
      exact .inl (accessedAt_of_edgeTouch hu).1
    · intro u _ t _ hu _ ht _
      rw [(accessedAt_of_edgeTouch hu).2] at ht
      contradiction

end Call

end SalientGraph
