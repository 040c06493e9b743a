import SalientGraph.Proofs.Traversal.Seeking

/-!
# Outcomes of traversals

What a traversal answers is determined by the graph that it sees. Neighborhoods and
subgraphs are computed here from a graph that is given as a whole, without a store to
ask and without a scope that may be over; an answered run has made the same of the
graph that it saw.
-/

namespace SalientGraph

namespace Engine

open TxAction (Finds finds_ofOutcome)

variable (e : Engine) (tenant : Tenant) (v : View)

/-- The node with the given identifier in a graph. -/
def nodeIn (id : String) : Except Fault OpenNode :=
  match v.node? id with
  | some row => e.openNode tenant row
  | none => .error (.notFound ("node " ++ id))

/-- The nodes with the given identifiers in a graph. -/
def nodesIn (ids : List String) : Except Fault (List OpenNode) :=
  e.openNodes tenant (v.nodesOf ids ids.length)

/-- The edges of a node in a graph, with the nodes at their other ends. -/
def neighborhoodIn (id : String) (limit : Nat) : Except Fault Neighborhood := do
  let node ← e.nodeIn tenant v id
  let limit := e.config.traversal.neighborLimit limit
  let outgoing ← e.openEdges tenant (v.edgesFrom id limit)
  let incoming ← e.openEdges tenant (v.edgesTo id limit)
  let edges := outgoing ++ incoming
  let neighbors ← e.nodesIn tenant v ((otherEnds id edges).take e.config.traversal.maxNodeFetch)
  return ⟨node, neighbors, edges⟩

/-- The nodes of a graph that an expansion has visited, and the edges among them. -/
def inducedIn (x : Expansion) : Except Fault Subgraph := do
  let limits := e.config.traversal
  let ids := x.order.take limits.maxNodeFetch
  let nodes ← e.nodesIn tenant v ids
  let edges ← e.openEdges tenant (v.edgesWithin ids limits.maxSubgraphEdges)
  let truncated := x.truncated || limits.maxNodeFetch < x.order.length
    || limits.maxSubgraphEdges ≤ edges.length
  return ⟨nodes, edges, truncated⟩

/-- What can be reached from a node of a graph in so many hops. -/
def subgraphIn (id : String) (hops : Nat) : Except Fault Subgraph := do
  let hops := min hops e.config.traversal.maxHops
  let root ← e.nodeIn tenant v id
  if hops = 0 then return ⟨[root], [], false⟩
  else e.inducedIn tenant v (v.expand e.config.traversal hops (Expansion.ofRoot id))

/-! ## Runs -/

variable {tenant v}

theorem finds_nodeIn (id : String) :
    Finds tenant v (e.requireNode tenant id) fun node n =>
      n = 0 ∧ e.nodeIn tenant v id = .ok node := by
  apply (e.finds_requireNode id).weaken
  rintro node _ ⟨rfl, row, hrow, hopen⟩
  refine ⟨rfl, ?_⟩
  unfold nodeIn
  rw [hrow]
  exact hopen

theorem finds_neighborhood (id : String) (limit : Nat) :
    Finds tenant v (e.neighborhood tenant id limit) fun found _ =>
      e.neighborhoodIn tenant v id limit = .ok found := by
  apply (e.finds_nodeIn id).step.bind
  rintro node _ ⟨rfl, hnode⟩
  apply (e.finds_edgesFrom id _).step.bind
  rintro outgoing _ ⟨rfl, houtgoing⟩
  apply (e.finds_edgesTo id _).step.bind
  rintro incoming _ ⟨rfl, hincoming⟩
  apply (e.finds_nodesInOrder _).step.bind
  rintro neighbors _ ⟨rfl, hneighbors⟩
  refine .pure ?_
  simp only [neighborhoodIn, nodesIn, hnode, houtgoing, hincoming, hneighbors, bind, Except.bind]
  rfl

/-- An expansion asks once for each of its hops. -/
theorem finds_expand (hops : Nat) :
    ∀ x : Expansion, Finds tenant v (e.expand tenant hops x) fun y n =>
      y = v.expand e.config.traversal hops x ∧ n ≤ hops := by
  induction hops with
  | zero => exact fun x => .pure ⟨rfl, Nat.le_refl 0⟩
  | succ hops ih =>
      intro x
      unfold expand View.expand
      dsimp only
      split
      · exact .pure ⟨rfl, Nat.zero_le _⟩
      · split
        · exact .pure ⟨rfl, Nat.zero_le _⟩
        · apply (e.finds_hop x.frontier).bind
          rintro pairs _ ⟨rfl, rfl⟩
          split
          · exact .pure ⟨rfl, Nat.le_add_left 1 hops⟩
          · apply (ih _).weaken
            rintro y n ⟨rfl, hle⟩
            exact ⟨rfl, by omega⟩

theorem finds_induced (x : Expansion) :
    Finds tenant v (e.induced tenant x) fun found n =>
      n = 0 ∧ e.inducedIn tenant v x = .ok found := by
  apply (e.finds_nodesInOrder _).step.bind
  rintro nodes _ ⟨rfl, hnodes⟩
  apply (e.finds_edgesWithin _ _).step.bind
  rintro edges _ ⟨rfl, hedges⟩
  refine .pure ⟨rfl, ?_⟩
  simp only [inducedIn, nodesIn, hnodes, hedges, bind, Except.bind]
  rfl

theorem finds_subgraph (id : String) (hops : Nat) :
    Finds tenant v (e.subgraph tenant id hops) fun found n =>
      e.subgraphIn tenant v id hops = .ok found ∧ n ≤ min hops e.config.traversal.maxHops := by
  apply (e.finds_nodeIn id).step.bind
  rintro root _ ⟨rfl, hroot⟩
  unfold subgraphIn
  simp only [hroot, bind, Except.bind]
  split
  · exact .pure ⟨rfl, Nat.zero_le _⟩
  · apply (e.finds_expand _ _).bind
    rintro x n ⟨rfl, hle⟩
    apply (e.finds_induced _).weaken
    rintro found _ ⟨rfl, hfound⟩
    exact ⟨hfound, by omega⟩

/-! ## Paths -/

/-- A path search that keeps a record of its hops. -/
def pathRecorded (tenant : Tenant) (start target : String) : TxAction (Path × List PathHop) := do
  if start = target then
    let node ← TxAction.step (e.requireNode tenant start)
    return (⟨[node], false⟩, [])
  else if !(← TxAction.step (TxAction.hasNode tenant start)) then
    throw (.notFound ("node " ++ start))
  else if !(← TxAction.step (TxAction.hasNode tenant target)) then
    return (.unreachable false, [])
  else
    let limits := e.config.traversal
    e.seekRecorded tenant start limits.pathMaxHops [start]
      (PathSearch.ofStart start target limits.pathMaxVisited)

theorem path_eq_map_pathRecorded (tenant : Tenant) (start target : String) :
    e.path tenant start target = (·.1) <$> e.pathRecorded tenant start target := by
  unfold path pathRecorded
  split
  · rw [map_bind]
    rfl
  · rw [map_bind]
    congr 1
    funext present
    split
    · rfl
    · rw [map_bind]
      congr 1
      funext present
      split
      · rfl
      · exact e.seek_eq_map_seekRecorded tenant start _ _ _

/-- The path with the fewest edges between two nodes, with the hops by which it was looked for. -/
def shortestPathRecorded (tenant : Tenant) (start target : String) :
    Action (Path × List PathHop) :=
  Action.transact .readOnly (e.pathRecorded tenant start target)

theorem shortestPath_eq_map_shortestPathRecorded (tenant : Tenant) (start target : String) :
    e.shortestPath tenant start target = (·.1) <$> e.shortestPathRecorded tenant start target := by
  unfold shortestPath shortestPathRecorded
  rw [path_eq_map_pathRecorded, Action.transact_map]

/-- A path search that is answered is recorded, and answered the same. -/
theorem exists_recorded_of_shortestPath {start target : String} {scope : Scope} {w u : World}
    {answer : Path} (h : e.shortestPath tenant start target scope w = .ok answer u) :
    ∃ hops, e.shortestPathRecorded tenant start target scope w = .ok (answer, hops) u := by
  rw [shortestPath_eq_map_shortestPathRecorded] at h
  have hrun : EStateM.map (·.1) (e.shortestPathRecorded tenant start target scope) w =
      .ok answer u := h
  unfold EStateM.map at hrun
  split at hrun
  · rename_i r s hrecorded
    cases hrun
    exact ⟨r.2, hrecorded⟩
  · contradiction

/-- What may be answered when a path is looked for in a graph, with the hops until then. -/
inductive Paths (tenant : Tenant) (v : View) (start target : String) :
    Path → List PathHop → Prop where
  | same {node : OpenNode} (hsame : start = target) (hnode : e.nodeIn tenant v start = .ok node) :
      Paths tenant v start target ⟨[node], false⟩ []
  | missing (hne : start ≠ target) (hstart : (v.node? start).isSome = true)
      (htarget : (v.node? target).isSome = false) :
      Paths tenant v start target (.unreachable false) []
  | sought {answer : Path} {hops : List PathHop} {last : PathSearch} {found : Bool}
      (hne : start ≠ target) (hstart : (v.node? start).isSome = true)
      (htarget : (v.node? target).isSome = true)
      (hseeks : v.Seeks e.config.traversal e.config.traversal.pathMaxHops [start]
        (.ofStart start target e.config.traversal.pathMaxVisited) hops last found)
      (hanswer : e.Answered tenant v start last found answer) :
      Paths tenant v start target answer hops

theorem finds_pathRecorded (start target : String) :
    Finds tenant v (e.pathRecorded tenant start target) fun r n =>
      n = r.2.length ∧ e.Paths tenant v start target r.1 r.2 := by
  unfold pathRecorded
  split
  · rename_i hsame
    apply (e.finds_nodeIn start).step.bind
    rintro node _ ⟨rfl, hnode⟩
    exact .pure ⟨rfl, .same hsame hnode⟩
  · rename_i hne
    apply (finds_hasNode start).step.bind
    rintro present _ ⟨rfl, hstart⟩
    cases present with
    | false => exact .throw _
    | true =>
        apply (finds_hasNode target).step.bind
        rintro present _ ⟨rfl, htarget⟩
        cases present with
        | false => exact .pure ⟨rfl, .missing hne hstart htarget⟩
        | true =>
            apply (e.finds_seekRecorded start _ _ _).weaken
            rintro ⟨answer, hops⟩ n ⟨rfl, last, found, hseeks, hanswer⟩
            refine ⟨?_, .sought hne hstart htarget hseeks hanswer⟩
            show 0 + (0 + hops.length) = hops.length
            omega

end Engine
end SalientGraph
