import SalientGraph.Proofs.Traversal.Outcomes

/-!
# What traversals give back

Nodes and edges of an answer are fetched separately, both by the identifiers that the
traversal has come to. So the nodes are those of the identifiers that are stored, and
the edges have their ends among the identifiers, stored or not. How many there are is
bounded by a valid configuration.
-/

namespace SalientGraph

/-! ## Bounds of a configuration -/

/-- What a configuration is valid for. -/
theorem Config.isValid_iff (c : Config) : c.IsValid ↔
    (0 < c.traversal.defaultNeighborLimit ∧
      c.traversal.defaultNeighborLimit ≤ c.traversal.maxNeighborLimit ∧
      0 < c.traversal.maxNodeFetch ∧ 0 < c.traversal.perHopEdgeLimit ∧
      0 < c.traversal.maxVisited ∧ 0 < c.traversal.pathFrontierCap ∧
      0 < c.traversal.pathMaxVisited) ∧
    (c.search.defaultLimit ≤ c.search.maxLimit ∧ 0 < c.search.defaultLimit) ∧
    0 < c.sweep.batchSize ∧ 0 < c.guard.capacity ∧ 0 < c.guard.clearingSeconds := by
  simp [IsValid, requirements, and_assoc]

namespace Config.IsValid

variable {c : Config} (h : c.IsValid)
include h

theorem maxVisited_pos : 0 < c.traversal.maxVisited := by
  obtain ⟨⟨_, _, _, _, hpos, _, _⟩, _⟩ := c.isValid_iff.1 h
  exact hpos

theorem maxNodeFetch_pos : 0 < c.traversal.maxNodeFetch := by
  obtain ⟨⟨_, _, hpos, _, _, _, _⟩, _⟩ := c.isValid_iff.1 h
  exact hpos

theorem pathMaxVisited_pos : 0 < c.traversal.pathMaxVisited := by
  obtain ⟨⟨_, _, _, _, _, _, hpos⟩, _⟩ := c.isValid_iff.1 h
  exact hpos

theorem neighborLimit_le (requested : Nat) :
    c.traversal.neighborLimit requested ≤ c.traversal.maxNeighborLimit := by
  obtain ⟨⟨_, hdefault, _⟩, _⟩ := c.isValid_iff.1 h
  unfold TraversalLimits.neighborLimit
  split
  · exact hdefault
  · exact Nat.min_le_right _ _

theorem limit_le (requested : Nat) : c.search.limit requested ≤ c.search.maxLimit := by
  obtain ⟨_, ⟨hdefault, _⟩, _⟩ := c.isValid_iff.1 h
  unfold SearchLimits.limit
  split
  · exact hdefault
  · exact Nat.min_le_right _ _

end Config.IsValid

/-! ## What an answer is made of -/

/-- The edges lead out of a node, or into it. -/
structure Neighborhood.Touches (t : Tables) (id : String) (outgoing incoming : List OpenEdge) :
    Prop where
  outgoing : ∀ edge ∈ outgoing, edge.source = id ∧ edge.key ∈ t.edges
  incoming : ∀ edge ∈ incoming, edge.target = id ∧ edge.key ∈ t.edges

/-- A neighborhood within some bounds, with the edges out of the node before those into it. -/
structure Neighborhood.Bounded (t : Tables) (l : TraversalLimits) (id : String)
    (outgoing incoming : List OpenEdge) (found : Neighborhood) : Prop where
  edges : found.edges = outgoing ++ incoming
  touches : Neighborhood.Touches t id outgoing incoming
  outgoing_le : outgoing.length ≤ l.maxNeighborLimit
  incoming_le : incoming.length ≤ l.maxNeighborLimit
  neighbors_le : found.neighbors.length ≤ l.maxNodeFetch

/-- A subgraph that spans some identifiers: they can be reached from the root within so many hops,
the nodes are those of them that are stored, and the edges are stored and have their ends among
them. -/
structure Subgraph.Spans (t : Tables) (l : TraversalLimits) (root : String) (hops : Nat)
    (ids : List String) (found : Subgraph) : Prop where
  first : ids.head? = some root
  nodup : ids.Nodup
  length_le : ids.length ≤ min l.maxVisited l.maxNodeFetch
  near : ∀ id ∈ ids, Reaches t.Joins root (min hops l.maxHops) id
  stored : root ∈ t.nodes
  nodes : found.ids = ids.filter t.nodes.contains
  edges_le : found.edges.length ≤ l.maxSubgraphEdges
  edges : ∀ edge ∈ found.edges, edge.key ∈ t.edges ∧ edge.source ∈ ids ∧ edge.target ∈ ids

/-- The hops of a path search within some bounds. -/
structure PathHop.Bounded (l : TraversalLimits) (hops : List PathHop) : Prop where
  hops_le : hops.length ≤ l.pathMaxHops
  frontiers_le : ∀ hop ∈ hops.tail, hop.frontier.length ≤ l.pathFrontierCap
  visited_le : ∀ hop ∈ hops, hop.search.visited.size ≤ l.pathMaxVisited

namespace Engine

variable (e : Engine) {tenant : Tenant} {t : Tables}

/-! ## Neighborhoods and subgraphs -/

/-- An opened edge is the one of its key. -/
theorem exists_of_mem_openEdges {rows : List SealedEdge} {edges : List OpenEdge}
    (h : e.openEdges tenant rows = .ok edges) {edge : OpenEdge} (hedge : edge ∈ edges) :
    ∃ row ∈ rows, row.key = edge.key := by
  have hmem : edge.key ∈ rows.map Edge.key := by
    rw [← e.keys_of_openEdges h]
    exact List.mem_map_of_mem hedge
  exact List.mem_map.1 hmem

theorem length_of_openEdges {rows : List SealedEdge} {edges : List OpenEdge}
    (h : e.openEdges tenant rows = .ok edges) : edges.length = rows.length := by
  have hkeys := congrArg List.length (e.keys_of_openEdges h)
  rwa [List.length_map, List.length_map] at hkeys

variable (ht : t.WellKeyed)
include ht

theorem mem_of_nodeIn {id : String} {node : OpenNode}
    (h : e.nodeIn tenant t.view id = .ok node) : node.id = id ∧ id ∈ t.nodes := by
  unfold nodeIn at h
  cases hrow : t.view.node? id with
  | none =>
      rw [hrow] at h
      cases h
  | some row =>
      rw [hrow] at h
      rw [View.node?_view] at hrow
      refine ⟨(e.id_of_openNode h).trans (ht.nodes hrow), ?_⟩
      rw [Std.ExtTreeMap.mem_iff_isSome_getElem?, hrow]
      rfl

theorem ids_of_nodesIn {ids : List String} (hids : ids.Nodup) {nodes : List OpenNode}
    (h : e.nodesIn tenant t.view ids = .ok nodes) :
    nodes.map Node.id = ids.filter t.nodes.contains := by
  rw [e.ids_of_openNodes h]
  exact ht.map_id_nodesOf hids

/-- The edges of a neighborhood lead out of the node or into it, and there are not too many. -/
theorem bounded_of_neighborhoodIn (hvalid : e.config.IsValid) {id : String} {limit : Nat}
    {found : Neighborhood} (h : e.neighborhoodIn tenant t.view id limit = .ok found) :
    ∃ outgoing incoming, found.Bounded t e.config.traversal id outgoing incoming := by
  have hlimit := hvalid.neighborLimit_le limit
  obtain ⟨node, _, h⟩ := exists_of_bind_eq_ok_except h
  obtain ⟨outgoing, houtgoing, h⟩ := exists_of_bind_eq_ok_except h
  obtain ⟨incoming, hincoming, h⟩ := exists_of_bind_eq_ok_except h
  obtain ⟨neighbors, hneighbors, h⟩ := exists_of_bind_eq_ok_except h
  cases h
  refine ⟨outgoing, incoming, rfl, ⟨?_, ?_⟩, ?_, ?_, ?_⟩
  · intro edge hedge
    obtain ⟨row, hrow, hkey⟩ := e.exists_of_mem_openEdges houtgoing hedge
    obtain ⟨hmem, hsource⟩ := View.mem_edges_of_mem_scanEdges hrow
    rw [← hkey]
    exact ⟨(congrArg EdgeKey.source hkey).symm.trans (eq_of_beq hsource), ht.mem_of_mem_edges hmem⟩
  · intro edge hedge
    obtain ⟨row, hrow, hkey⟩ := e.exists_of_mem_openEdges hincoming hedge
    obtain ⟨hmem, htarget⟩ := View.mem_edges_of_mem_scanEdges hrow
    rw [← hkey]
    exact ⟨(congrArg EdgeKey.target hkey).symm.trans (eq_of_beq htarget), ht.mem_of_mem_edges hmem⟩
  · rw [e.length_of_openEdges houtgoing]
    exact (View.length_scanEdges_le _ _ _).trans hlimit
  · rw [e.length_of_openEdges hincoming]
    exact (View.length_scanEdges_le _ _ _).trans hlimit
  · have hlength := congrArg List.length (e.ids_of_openNodes hneighbors)
    rw [List.length_map, List.length_map] at hlength
    show neighbors.length ≤ _
    rw [hlength]
    exact (View.length_nodesOf_le _ _ _).trans (List.length_take_le _ _)

/-- Where there is room for the root, a subgraph spans the identifiers that it is fetched by. -/
theorem spans_of_subgraphIn (hvalid : e.config.IsValid) {id : String} {hops : Nat}
    {found : Subgraph} (h : e.subgraphIn tenant t.view id hops = .ok found) :
    ∃ ids, found.Spans t e.config.traversal id hops ids := by
  obtain ⟨root, hroot, h⟩ := exists_of_bind_eq_ok_except h
  obtain ⟨hid, hstored⟩ := e.mem_of_nodeIn ht hroot
  have hcontains : t.nodes.contains id = true := hstored
  split at h
  · -- no hops: the root alone
    cases h
    refine ⟨[id], rfl, List.pairwise_singleton _ _, ?_, ?_, hstored, ?_, Nat.zero_le _, ?_⟩
    · exact Nat.le_min.2 ⟨hvalid.maxVisited_pos, hvalid.maxNodeFetch_pos⟩
    · intro other hother
      rw [List.mem_singleton.1 hother]
      exact .root _
    · show [root.id] = [id].filter _
      rw [List.filter_cons_of_pos hcontains, hid]
      rfl
    · exact List.forall_mem_nil _
  · obtain ⟨nodes, hnodes, h⟩ := exists_of_bind_eq_ok_except h
    obtain ⟨edges, hedges, h⟩ := exists_of_bind_eq_ok_except h
    cases h
    -- what is fetched is the expansion as far as there is room, and the root comes first in it
    have hrooted := ht.rooted_expand e.config.traversal (min hops e.config.traversal.maxHops)
      (Expansion.rooted_ofRoot t.Joins id hvalid.maxVisited_pos)
    rw [Nat.zero_add] at hrooted
    have hnodup := (List.take_sublist e.config.traversal.maxNodeFetch _).nodup hrooted.nodup
    refine ⟨_, ?_, hnodup, ?_, ?_, hstored, e.ids_of_nodesIn ht hnodup hnodes, ?_, ?_⟩
    · rw [List.head?_take, if_neg (Nat.ne_of_gt hvalid.maxNodeFetch_pos)]
      exact hrooted.first
    · rw [List.length_take, ← hrooted.size, Nat.min_comm]
      exact Nat.le_min.2 ⟨(Nat.min_le_left _ _).trans hrooted.room, Nat.min_le_right _ _⟩
    · exact fun other hother => hrooted.near other (List.mem_of_mem_take hother)
    · show edges.length ≤ _
      rw [e.length_of_openEdges hedges]
      exact View.length_scanEdges_le _ _ _
    · intro edge hedge
      obtain ⟨row, hrow, hkey⟩ := e.exists_of_mem_openEdges hedges hedge
      obtain ⟨hmem, hends⟩ := View.mem_edges_of_mem_scanEdges hrow
      rw [Bool.and_eq_true, View.contains_ofList, View.contains_ofList] at hends
      have hsource : row.source = edge.source := congrArg EdgeKey.source hkey
      have htarget : row.target = edge.target := congrArg EdgeKey.target hkey
      rw [← hkey, ← hsource, ← htarget]
      exact ⟨ht.mem_of_mem_edges hmem, hends⟩

/-! ## Paths -/

variable {start target : String} {answer : Path} {hops : List PathHop}

/-- The nodes of a path that is found are those of the trail to its target that are stored. -/
theorem ids_of_answered {last : PathSearch} {ids : List String}
    (h : e.Answered tenant t.view start last true answer) (hsound : last.Sound t.Joins start)
    (hids : last.Trail start last.target ids) : answer.ids = ids.filter t.nodes.contains := by
  have hnodes : e.nodesIn tenant t.view (last.path start) = .ok answer.nodes := h.1
  rw [hsound.path_eq hids] at hnodes
  exact e.ids_of_nodesIn ht (hids.nodup hsound.orphan) hnodes

/-- A path that is found is cut out of a trail along edges from its start to its target. -/
theorem trail_of_answered {last : PathSearch} {found : Bool} {room : Nat}
    (h : e.Answered tenant t.view start last found answer) (hsound : last.Sound t.Joins start)
    (htrail : found = true → ∃ ids, last.Trail start last.target ids ∧ ids.length ≤ room) :
    ∃ ids, ids.IsChain t.Joins ∧ ids.Nodup ∧ answer.ids = ids.filter t.nodes.contains ∧
      ids.length ≤ room ∧ (ids = [] ∨ ids.head? = some start ∧ ids.getLast? = some last.target) := by
  cases found with
  | false =>
      obtain rfl : answer = .unreachable last.truncated := h
      exact ⟨[], .nil, .nil, rfl, Nat.zero_le _, .inl rfl⟩
  | true =>
      obtain ⟨ids, hids, hle⟩ := htrail rfl
      exact ⟨ids, hids.isChain hsound, hids.nodup hsound.orphan, e.ids_of_answered ht h hsound hids,
        hle, .inr ⟨hids.head?_eq, hids.getLast?_eq⟩⟩

/-- A path is cut out of a trail with no more hops than a search may make. -/
theorem bounded_trail_of_paths (hvalid : e.config.IsValid)
    (h : e.Paths tenant t.view start target answer hops) :
    ∃ ids, ids.IsChain t.Joins ∧ ids.Nodup ∧ answer.ids = ids.filter t.nodes.contains ∧
      ids.length ≤ e.config.traversal.pathMaxHops + 1 ∧
      (ids = [] ∨ ids.head? = some start ∧ ids.getLast? = some target) := by
  cases h with
  | @same node hsame hnode =>
      obtain ⟨hid, hstored⟩ := e.mem_of_nodeIn ht hnode
      have hcontains : t.nodes.contains start = true := hstored
      refine ⟨[start], .singleton start, List.pairwise_singleton _ _, ?_, Nat.le_add_left 1 _,
        .inr ⟨rfl, ?_⟩⟩
      · show [node.id] = [start].filter _
        rw [List.filter_cons_of_pos hcontains, hid]
        rfl
      · rw [← hsame]
        rfl
  | missing => exact ⟨[], .nil, .nil, rfl, Nat.zero_le _, .inl rfl⟩
  | @sought _ _ last found _ _ _ hseeks hanswer =>
      have hstart := PathSearch.sound_ofStart t.Joins start target hvalid.pathMaxVisited_pos
      obtain ⟨_, hlast, htarget, htrail⟩ :=
        ht.sound_of_seeks hseeks hstart (PathSearch.allAt_start _ start)
      rw [Nat.zero_add] at htrail
      have hfound := e.trail_of_answered ht hanswer hlast htrail
      rw [htarget] at hfound
      exact hfound

theorem trail_of_paths (hvalid : e.config.IsValid)
    (h : e.Paths tenant t.view start target answer hops) :
    ∃ ids, ids.IsChain t.Joins ∧ ids.Nodup ∧ answer.ids = ids.filter t.nodes.contains ∧
      (ids = [] ∨ ids.head? = some start ∧ ids.getLast? = some target) := by
  obtain ⟨ids, hchain, hnodup, hids, _, hends⟩ := e.bounded_trail_of_paths ht hvalid h
  exact ⟨ids, hchain, hnodup, hids, hends⟩

/-- The hops of a path search keep to the bounds of a valid configuration. -/
theorem bounded_of_paths (hvalid : e.config.IsValid)
    (h : e.Paths tenant t.view start target answer hops) :
    PathHop.Bounded e.config.traversal hops := by
  cases h with
  | same | missing => exact ⟨Nat.zero_le _, List.forall_mem_nil _, List.forall_mem_nil _⟩
  | sought _ _ _ hseeks _ =>
      have hstart := PathSearch.sound_ofStart t.Joins start target hvalid.pathMaxVisited_pos
      obtain ⟨hmade, _⟩ := ht.sound_of_seeks hseeks hstart (PathSearch.allAt_start _ start)
      refine ⟨hseeks.length_le, hseeks.later_frontiers_le, ?_⟩
      intro hop hhop
      obtain ⟨hsound, hcap⟩ := hmade hop hhop
      exact hsound.room.trans (Nat.le_of_eq hcap)

end Engine
end SalientGraph
