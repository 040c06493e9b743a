import SalientGraph.Proofs.Traversal.Exactness

/-!
# Hops that count as full

A hop asks for the edges of its frontier in either direction, as many as a limit for
each. Whether one of the two answers is full is told from both of them put together,
where an edge between two nodes of the frontier stands twice. So a hop may count as full
although each of its answers is complete, and the traversal then says that it is
truncated although it has found everything.
-/

namespace SalientGraph

/-! ## Counts of edges -/

namespace Tables

variable (t : Tables) (ids : List String)

/-- The number of edges with their source among some nodes. -/
def leaving : Nat :=
  t.edges.keys.countP (·.source ∈ ids)

/-- The number of edges with their target among some nodes. -/
def entering : Nat :=
  t.edges.keys.countP (·.target ∈ ids)

/-- The number of edges with both ends among some nodes. -/
def within : Nat :=
  t.edges.keys.countP fun key => key.source ∈ ids ∧ key.target ∈ ids

/-- The edges from or to some nodes come to a limit if those within the nodes are counted twice. -/
def Overcounts (limit : Nat) : Prop :=
  limit ≤ t.leaving ids + t.within ids ∨ limit ≤ t.entering ids + t.within ids

instance (limit : Nat) : Decidable (t.Overcounts ids limit) :=
  inferInstanceAs (Decidable (_ ∨ _))

namespace WellKeyed

variable {t : Tables} (ht : t.WellKeyed) (ids : List String)
include ht

/-- What is counted by the keys of the edges can be counted on their list. -/
theorem countP_keys {p : SealedEdge → Bool} {q : EdgeKey → Bool}
    (hpq : ∀ row, p row = true ↔ q row.key = true) :
    t.view.edges.countP p = t.edges.keys.countP q := by
  rw [← ht.map_key_edges, List.countP_map]
  exact List.countP_congr fun row _ => hpq row

theorem countP_source :
    (t.view.edges.countP fun e => (Ids.ofList ids).contains e.source) = t.leaving ids :=
  ht.countP_keys fun row => (View.contains_ofList ids row.source).trans decide_eq_true_iff.symm

theorem countP_target :
    (t.view.edges.countP fun e => (Ids.ofList ids).contains e.target) = t.entering ids :=
  ht.countP_keys fun row => (View.contains_ofList ids row.target).trans decide_eq_true_iff.symm

theorem countP_joinsWithin : t.view.edges.countP (View.joinsWithin ids) = t.within ids :=
  ht.countP_keys fun _ => View.joinsWithin_iff.trans decide_eq_true_iff.symm

end WellKeyed
end Tables

/-! ## One hop -/

namespace View

variable {v : View} {limit : Nat} {keep p : SealedEdge → Bool}

/-- On a list that is cut off there are no more edges of a kind than there are altogether. -/
theorem countP_scanEdges_le :
    (v.scanEdges limit keep).countP p ≤ v.edges.countP fun e => p e && keep e := by
  rw [← List.countP_filter, scanEdges_eq_take]
  exact (List.take_sublist limit _).countP_le

theorem countP_scanEdges_of_lt (h : v.edges.countP keep < limit) :
    (v.scanEdges limit keep).countP p = v.edges.countP fun e => p e && keep e := by
  rw [← List.countP_filter, scanEdges_of_length_lt]
  rw [v.length_scanEdges]
  omega

end View

/-- A hop counts as full where the edges of one direction and those within the frontier, which are on
both lists, come to the limit together. -/
theorem Tables.WellKeyed.saturated_iff {t : Tables} (ht : t.WellKeyed) (frontier : List String)
    (limit : Nat) : saturated frontier (t.view.pairsTouching frontier limit) limit = true ↔
      t.Overcounts frontier limit := by
  let inside := Ids.ofList frontier
  let outgoing := t.view.scanEdges limit fun e => inside.contains e.source
  let incoming := t.view.scanEdges limit fun e => inside.contains e.target
  have hout : outgoing.length = min limit (t.leaving frontier) := by
    rw [View.length_scanEdges, ht.countP_source]
  have hin : incoming.length = min limit (t.entering frontier) := by
    rw [View.length_scanEdges, ht.countP_target]
  have hboth : (t.view.edges.countP fun e => inside.contains e.source && inside.contains e.target) =
      t.within frontier :=
    ht.countP_joinsWithin frontier
  have hswapped :
      (t.view.edges.countP fun e => inside.contains e.target && inside.contains e.source) =
        t.within frontier := by
    rw [← hboth]
    simp only [Bool.and_comm]
  -- in each direction, the edges within the frontier are listed unless the other ones take the room
  have hback : incoming.countP (fun e => inside.contains e.source) ≤ t.within frontier :=
    hboth ▸ View.countP_scanEdges_le
  have hforth : outgoing.countP (fun e => inside.contains e.target) ≤ t.within frontier :=
    hswapped ▸ View.countP_scanEdges_le
  have hbackAll (h : t.entering frontier < limit) :
      incoming.countP (fun e => inside.contains e.source) = t.within frontier :=
    hboth ▸ View.countP_scanEdges_of_lt (by rwa [ht.countP_target])
  have hforthAll (h : t.leaving frontier < limit) :
      outgoing.countP (fun e => inside.contains e.target) = t.within frontier :=
    hswapped ▸ View.countP_scanEdges_of_lt (by rwa [ht.countP_source])
  unfold saturated Tables.Overcounts
  dsimp only
  rw [Bool.or_eq_true, decide_eq_true_iff, decide_eq_true_iff, View.countP_source_pairsTouching,
    View.countP_target_pairsTouching]
  change limit ≤ outgoing.length + incoming.countP (fun e => inside.contains e.source) ∨
    limit ≤ outgoing.countP (fun e => inside.contains e.target) + incoming.length ↔ _
  omega

theorem Tables.WellKeyed.whole_iff {t : Tables} (ht : t.WellKeyed) {frontier : List String}
    {limit : Nat} :
    t.view.Whole frontier limit ↔ t.leaving frontier < limit ∧ t.entering frontier < limit := by
  unfold View.Whole
  rw [View.length_scanEdges, View.length_scanEdges, ht.countP_source, ht.countP_target]
  omega

/-! ## Expansions -/

/-- A visit has kept somebody out only where the cap has been reached. -/
theorem le_size_of_full {cap : Nat} {ids : List String} :
    ∀ {visited : Ids}, (visit cap visited ids).full = true →
      cap ≤ (visit cap visited ids).visited.size := by
  induction ids with
  | nil => exact fun h => nomatch h
  | cons id ids ih =>
      intro visited h
      unfold visit at h ⊢
      split at h
      · rw [if_pos ‹_›]
        exact ih h
      · rw [if_neg ‹_›]
        split at h
        · rw [if_pos ‹_›]
          assumption
        · rw [if_neg ‹_›]
          exact ih h

namespace View

variable (v : View) (l : TraversalLimits)

/-- The frontiers from which an expansion by so many hops makes its hops. -/
def frontiers : Nat → Expansion → List (List String)
  | 0, _ => []
  | hops + 1, x =>
    if x.frontier.isEmpty then []
    else if l.maxVisited ≤ x.visited.size then []
    else x.frontier :: if (v.grown l x).full then [] else frontiers hops (v.grown l x)

variable {v l}

theorem frontiers_succ (hops : Nat) (x : Expansion) :
    v.frontiers l (hops + 1) x =
      if x.frontier.isEmpty then []
      else if l.maxVisited ≤ x.visited.size then []
      else x.frontier ::
        if (v.grown l x).full then [] else v.frontiers l hops (v.grown l x) :=
  rfl

/-- Where there is room left in the end, either there is nothing to start from, or the cap keeps
nobody out of the next hop. -/
theorem expand_of_room {hops : Nat} {x : Expansion}
    (hroom : (v.expand l (hops + 1) x).visited.size < l.maxVisited) :
    (x.frontier.isEmpty = true ∧ v.expand l (hops + 1) x = x ∧ v.frontiers l (hops + 1) x = []) ∨
      (x.visited.size < l.maxVisited ∧ (v.grown l x).full = false ∧
        v.expand l (hops + 1) x = v.expand l hops (v.grown l x) ∧
        v.frontiers l (hops + 1) x = x.frontier :: v.frontiers l hops (v.grown l x)) := by
  rw [frontiers_succ]
  rw [expand_succ] at hroom ⊢
  by_cases hempty : x.frontier.isEmpty = true
  · rw [if_pos hempty, if_pos hempty]
    exact .inl ⟨hempty, rfl, rfl⟩
  · rw [if_neg hempty] at hroom ⊢
    rw [if_neg hempty]
    by_cases hcap : l.maxVisited ≤ x.visited.size
    · rw [if_pos hcap] at hroom
      exact absurd hcap (Nat.not_le.2 hroom)
    · rw [if_neg hcap] at hroom ⊢
      rw [if_neg hcap]
      by_cases hfull : (v.grown l x).full = true
      · rw [if_pos hfull] at hroom
        exact absurd (le_size_of_full hfull) (Nat.not_le.2 hroom)
      · rw [if_neg hfull, if_neg hfull]
        exact .inr ⟨Nat.lt_of_not_le hcap, Bool.eq_false_iff.2 hfull, rfl, rfl⟩

/-- An expansion that has room left at its end was truncated by its hops, if at all. -/
theorem truncated_expand_iff (hops : Nat) :
    ∀ {x : Expansion}, (v.expand l hops x).visited.size < l.maxVisited →
      ((v.expand l hops x).truncated = true ↔ x.truncated = true ∨
        ∃ frontier ∈ v.frontiers l hops x,
          saturated frontier (v.pairsTouching frontier l.perHopEdgeLimit) l.perHopEdgeLimit =
            true) := by
  induction hops with
  | zero => simp [View.expand, frontiers]
  | succ hops ih =>
      intro x hroom
      rcases expand_of_room hroom with ⟨_, hend, hnone⟩ | ⟨_, hfull, hnext, hlist⟩
      · simp [hend, hnone]
      · have hhop : (v.grown l x).truncated = (x.truncated ||
            saturated x.frontier (v.pairsTouching x.frontier l.perHopEdgeLimit)
              l.perHopEdgeLimit) :=
          (congrArg (_ || ·) hfull).trans (Bool.or_false _)
        rw [hnext] at hroom ⊢
        rw [hlist, ih hroom, hhop, Bool.or_eq_true, List.exists_mem_cons_iff, or_assoc]

/-- An expansion that has room left at its end is not hindered, if its hops come to the end of the
edges. -/
theorem unhindered_of_whole (hops : Nat) :
    ∀ {x : Expansion}, (v.expand l hops x).visited.size < l.maxVisited →
      (∀ frontier ∈ v.frontiers l hops x, v.Whole frontier l.perHopEdgeLimit) →
        v.Unhindered l hops x := by
  induction hops with
  | zero => exact fun _ _ => trivial
  | succ hops ih =>
      intro x hroom hwhole
      rcases expand_of_room hroom with ⟨hempty, _⟩ | ⟨hstart, hfull, hnext, hlist⟩
      · exact .inl hempty
      · rw [hnext] at hroom
        rw [hlist] at hwhole
        obtain ⟨hfirst, hlater⟩ := List.forall_mem_cons.1 hwhole
        exact .inr ⟨hstart, hfirst, hfull, ih hroom hlater⟩

end View

namespace Engine

variable (e : Engine) {tenant : Tenant} {t : Tables}

/-- The identifiers that a traversal visits. -/
def visitedIn (v : View) (root : String) (hops : Nat) : List String :=
  (e.expansionIn v root hops).order

/-- The frontiers from which a traversal makes its hops. -/
def frontiersIn (v : View) (root : String) (hops : Nat) : List (List String) :=
  v.frontiers e.config.traversal (min hops e.config.traversal.maxHops) (.ofRoot root)

/-- Where all nodes are fetched, a subgraph has the edges among them, up to the limit. -/
theorem length_edges_of_inducedIn (ht : t.WellKeyed) {x : Expansion}
    (hfetched : x.order.length ≤ e.config.traversal.maxNodeFetch) {found : Subgraph}
    (h : e.inducedIn tenant t.view x = .ok found) :
    found.edges.length = min e.config.traversal.maxSubgraphEdges (t.within x.order) := by
  obtain ⟨nodes, _, h⟩ := exists_of_bind_eq_ok_except h
  obtain ⟨edges, hedges, h⟩ := exists_of_bind_eq_ok_except h
  cases h
  show edges.length = _
  rw [e.length_of_openEdges hedges, List.take_of_length_le hfetched, ← ht.countP_joinsWithin]
  exact t.view.length_scanEdges _ (View.joinsWithin x.order)

/-- A subgraph that meets no limit on nodes or on edges is truncated if its expansion is. -/
theorem truncated_of_inducedIn {v : View} {x : Expansion}
    (hfetched : x.order.length ≤ e.config.traversal.maxNodeFetch) {found : Subgraph}
    (h : e.inducedIn tenant v x = .ok found)
    (hlisted : found.edges.length < e.config.traversal.maxSubgraphEdges) :
    found.truncated = x.truncated := by
  obtain ⟨nodes, _, h⟩ := exists_of_bind_eq_ok_except h
  obtain ⟨edges, _, h⟩ := exists_of_bind_eq_ok_except h
  cases h
  show (x.truncated || decide _ || decide _) = x.truncated
  rw [decide_eq_false (Nat.not_lt.2 hfetched), decide_eq_false (Nat.not_le.2 hlisted),
    Bool.or_false, Bool.or_false]

/-- A traversal visits fewer nodes than it may visit and no more than it may fetch, and there are
fewer edges among them than it may list. -/
structure HasRoom (t : Tables) (root : String) (hops : Nat) : Prop where
  visited : (e.visitedIn t.view root hops).length < e.config.traversal.maxVisited
  fetched : (e.visitedIn t.view root hops).length ≤ e.config.traversal.maxNodeFetch
  listed : t.within (e.visitedIn t.view root hops) < e.config.traversal.maxSubgraphEdges

section Room

variable {root : String} {hops : Nat} {found : Subgraph} {e}

theorem HasRoom.expansion (hroom : e.HasRoom t root hops) (ht : t.WellKeyed)
    (hvalid : e.config.IsValid) :
    (e.expansionIn t.view root hops).visited.size < e.config.traversal.maxVisited := by
  have hrooted := ht.rooted_expand e.config.traversal (min hops e.config.traversal.maxHops)
    (Expansion.rooted_ofRoot t.Joins root hvalid.maxVisited_pos)
  exact hrooted.size.trans_lt hroom.visited

theorem HasRoom.edges (hroom : e.HasRoom t root hops) (ht : t.WellKeyed)
    (h : e.inducedIn tenant t.view (e.expansionIn t.view root hops) = .ok found) :
    found.edges.length < e.config.traversal.maxSubgraphEdges := by
  rw [e.length_edges_of_inducedIn ht hroom.fetched h]
  exact (Nat.min_le_right _ _).trans_lt hroom.listed

/-- With room for all nodes and edges, a subgraph is truncated if one of the hops counts as full. -/
theorem HasRoom.truncated_iff (hroom : e.HasRoom t root hops) (ht : t.WellKeyed)
    (hvalid : e.config.IsValid) (h : e.subgraphIn tenant t.view root hops = .ok found) :
    found.truncated = true ↔ ∃ frontier ∈ e.frontiersIn t.view root hops,
      t.Overcounts frontier e.config.traversal.perHopEdgeLimit := by
  obtain ⟨node, _, h⟩ := exists_of_bind_eq_ok_except h
  split at h
  · rename_i hzero
    cases h
    simp [frontiersIn, hzero, View.frontiers]
  · have hsize := hroom.expansion ht hvalid
    rw [e.truncated_of_inducedIn hroom.fetched h (hroom.edges ht h), expansionIn,
      View.truncated_expand_iff _ hsize]
    simp only [ht.saturated_iff]
    exact or_iff_right Bool.false_ne_true

/-- If no direction of a hop comes to the limit either, a subgraph is exact. -/
theorem HasRoom.exact (hroom : e.HasRoom t root hops) (ht : t.WellKeyed) (hclosed : t.Closed)
    (hvalid : e.config.IsValid)
    (hbelow : ∀ frontier ∈ e.frontiersIn t.view root hops,
      t.leaving frontier < e.config.traversal.perHopEdgeLimit ∧
        t.entering frontier < e.config.traversal.perHopEdgeLimit)
    (h : e.subgraphIn tenant t.view root hops = .ok found) :
    found.Exact t root (min hops e.config.traversal.maxHops) := by
  apply e.exact_of_unhindered ht hclosed hvalid h
  intro hinduced
  refine ⟨?_, hroom.fetched, hroom.edges ht hinduced⟩
  apply View.unhindered_of_whole _ (hroom.expansion ht hvalid)
  intro frontier hfrontier
  exact ht.whole_iff.2 (hbelow frontier hfrontier)

end Room

/-- Over every committed graph and with every valid configuration, where a traversal from a node has
room for all nodes that it visits and for all edges among them: it says that it is truncated exactly
if one of its hops counts as full. As long as each direction of every hop stays below the limit, it
has found everything all the same, if no edge dangles. While no request fails and all payloads can be
opened, it is answered within every scope that outlasts it. -/
theorem traversals_are_truncated_by_overcounted_hops (hvalid : e.config.validate = .ok ())
    (w : World) (hstore : w.store.Reached) (halone : w.conditions.others = []) (tenant : Tenant)
    (root : String) (hroot : root ∈ (w.store.tablesOf tenant).nodes) (hops : Nat)
    (hroom : e.HasRoom (w.store.tablesOf tenant) root hops) :
    let t := w.store.tablesOf tenant
    let limit := e.config.traversal.perHopEdgeLimit
    let frontiers := e.frontiersIn t.view root hops
    (∀ scope found u, e.traverse tenant root hops scope w = .ok found u →
      (found.truncated = true ↔ ∃ frontier ∈ frontiers, t.Overcounts frontier limit) ∧
      (t.Closed →
        (∀ frontier ∈ frontiers, t.leaving frontier < limit ∧ t.entering frontier < limit) →
          found.Exact t root (min hops e.config.traversal.maxHops))) ∧
    ((∀ served r, w.conditions.failure served r = none) → e.CanOpen tenant t →
      ∀ scope : Scope, scope.Outlasts (e.traverse tenant root hops) w →
        ∃ found u, e.traverse tenant root hops scope w = .ok found u) := by
  have hconfig := (Config.validate_eq_ok_iff e.config).1 hvalid
  have ht := hstore.wellKeyed tenant
  constructor
  · intro scope found u hrun
    obtain ⟨_, ⟨hfound, _⟩, _⟩ := Action.transact_finds halone (e.finds_subgraph root hops) hrun
    exact ⟨hroom.truncated_iff ht hconfig hfound,
      fun hclosed hbelow => hroom.exact ht hclosed hconfig hbelow hfound⟩
  · intro hsound hopen scope hlasts
    exact e.exists_traverse w halone hsound hopen hroot hops hlasts

/-- Three edges make a triangle. The second hop from one of its corners, with the other two as its
frontier, comes to three edges in each direction, which is less than the limit. -/
theorem traversals_are_truncated_by_overcounted_hops_not_below_the_limit :
    let e : Engine :=
      { config := { traversal := { perHopEdgeLimit := 4 } }
        nonce := fun _ => [], shuffle := fun _ ids => ids, shuffle_perm := fun _ _ => .refl _ }
    let acme : Tenant := ⟨"acme"⟩
    let node (id : String) : SealedNode := ⟨id, "concept", id, ⟨[0x7b, 0x7d]⟩, none, default⟩
    let edge (a b : String) : SealedEdge := ⟨a, b, "next", 1.0, ⟨[0x7b, 0x7d]⟩, default⟩
    let nodes := ["a", "b", "c"].foldl (fun tx id => tx.stageNode acme id (.put (node id)))
      (Store.begin {} .readWrite).1
    let tx := [edge "a" "b", edge "b" "c", edge "c" "a"].foldl
      (fun tx row => tx.stageEdge acme row.key (.put row)) nodes
    let w : World := { World.start {} default with store := Store.commit {} tx }
    let t := w.store.tablesOf acme
    e.config.validate = .ok () ∧ w.store.Reached ∧ w.conditions.others = [] ∧ "a" ∈ t.nodes ∧
      e.HasRoom t "a" 2 ∧ t.Closed ∧ e.CanOpen acme t ∧
      e.frontiersIn t.view "a" 2 = [["a"], ["b", "c"]] ∧
      ∃ found u, e.traverse acme "a" 2 .unbounded w = .ok found u ∧ found.truncated = false ∧
        found.Exact t "a" 2 := by
  intro e acme node edge nodes tx w t
  have hvalid : e.config.validate = .ok () := by decide +kernel
  have hnodes : nodes.Made :=
    .staged {} (.putNode (node "c")) acme (.staged {} (.putNode (node "b")) acme
      (.staged {} (.putNode (node "a")) acme (.begun {} .readWrite) rfl) rfl) rfl
  have hmade : tx.Made :=
    .staged {} (.putEdge (edge "c" "a")) acme (.staged {} (.putEdge (edge "b" "c")) acme
      (.staged {} (.putEdge (edge "a" "b")) acme hnodes rfl) rfl) rfl
  have hstore : w.store.Reached := .committed (s := {}) (.empty rfl) hmade rfl
  have hids : t.nodes.keys = ["a", "b", "c"] := by decide +kernel
  have hkeys : t.edges.keys = [⟨"a", "b", "next"⟩, ⟨"b", "c", "next"⟩, ⟨"c", "a", "next"⟩] := by
    decide +kernel
  have hclosed : t.Closed := Tables.closed_of_keys hids hkeys (by decide)
  have hroot : "a" ∈ t.nodes := by
    rw [← Std.ExtTreeMap.mem_keys, hids]
    decide
  have hopen : e.CanOpen acme t := e.canOpen_of_isOk (by decide +kernel) (by decide +kernel)
  have hroom : e.HasRoom t "a" 2 :=
    ⟨by decide +kernel, by decide +kernel, by decide +kernel⟩
  have hfrontiers : e.frontiersIn t.view "a" 2 = [["a"], ["b", "c"]] := by decide +kernel
  have hbelow : ∀ frontier ∈ e.frontiersIn t.view "a" 2, ¬ t.Overcounts frontier 4 ∧
      t.leaving frontier < 4 ∧ t.entering frontier < 4 := by
    decide +kernel
  obtain ⟨hfound, hanswered⟩ :=
    traversals_are_truncated_by_overcounted_hops e hvalid w hstore rfl acme "a" hroot 2 hroom
  obtain ⟨found, u, hrun⟩ := hanswered (fun _ _ => rfl) hopen .unbounded (Scope.check_unbounded _)
  obtain ⟨htruncated, hexact⟩ := hfound .unbounded found u hrun
  have huncut : ¬ found.truncated = true := by
    rw [htruncated]
    rintro ⟨frontier, hfrontier, hfull⟩
    exact (hbelow frontier hfrontier).1 hfull
  exact ⟨hvalid, hstore, rfl, hroot, hroom, hclosed, hopen, hfrontiers, found, u, hrun,
    Bool.eq_false_iff.2 huncut, hexact hclosed fun frontier hfrontier => (hbelow frontier hfrontier).2⟩

/-- The same triangle with a limit of three edges. No hop has as many of them in either direction, and
the traversal meets no other limit and finds all nodes and all edges. It says that it is truncated
nevertheless, as the edge across from its root has been counted twice. -/
theorem triangle_is_truncated_without_a_full_hop :
    let e : Engine :=
      { config := { traversal := { perHopEdgeLimit := 3 } }
        nonce := fun _ => [], shuffle := fun _ ids => ids, shuffle_perm := fun _ _ => .refl _ }
    let acme : Tenant := ⟨"acme"⟩
    let triangle : Action Unit := do
      let _ ← e.createNode acme (Node.create "a" "concept" "a" default)
      let _ ← e.createNode acme (Node.create "b" "concept" "b" default)
      let _ ← e.createNode acme (Node.create "c" "concept" "c" default)
      let _ ← e.createEdge acme (Edge.create ⟨"a", "b", "next"⟩ default)
      let _ ← e.createEdge acme (Edge.create ⟨"b", "c", "next"⟩ default)
      let _ ← e.createEdge acme (Edge.create ⟨"c", "a", "next"⟩ default)
    ∃ w, triangle .unbounded (World.start {} default) = .ok () w ∧
      let t := w.store.tablesOf acme
      e.config.validate = .ok () ∧ w.conditions.others = [] ∧ t.nodes.keys = ["a", "b", "c"] ∧
      t.edges.keys = [⟨"a", "b", "next"⟩, ⟨"b", "c", "next"⟩, ⟨"c", "a", "next"⟩] ∧
      e.CanOpen acme t ∧
      (∀ frontier ∈ e.frontiersIn t.view "a" 2,
        t.leaving frontier < e.config.traversal.perHopEdgeLimit ∧
          t.entering frontier < e.config.traversal.perHopEdgeLimit) ∧
      e.HasRoom t "a" 2 ∧
      ∃ found u, e.traverse acme "a" 2 .unbounded w = .ok found u ∧
        found.ids = t.nodes.keys ∧ found.edges.map Edge.key = t.edges.keys ∧
        found.truncated = true := by
  intro e acme triangle
  let w := finalState (triangle .unbounded (World.start {} default))
  let t := w.store.tablesOf acme
  have hrun : (answer? (triangle .unbounded (World.start {} default))).map id = some () := by
    decide +kernel
  obtain ⟨_, hok, _⟩ := exists_ok_of_map_answer? hrun
  have hnodes : t.nodes.keys = ["a", "b", "c"] := by decide +kernel
  have hedges : t.edges.keys = [⟨"a", "b", "next"⟩, ⟨"b", "c", "next"⟩, ⟨"c", "a", "next"⟩] := by
    decide +kernel
  have hopen : e.CanOpen acme t := e.canOpen_of_isOk (by decide +kernel) (by decide +kernel)
  have hhops : ∀ frontier ∈ e.frontiersIn t.view "a" 2,
      t.leaving frontier < 3 ∧ t.entering frontier < 3 := by
    decide +kernel
  have hfound : (answer? (e.traverse acme "a" 2 .unbounded w)).map
      (fun found => (found.ids, found.edges.map Edge.key, found.truncated)) =
        some (t.nodes.keys, t.edges.keys, true) := by
    decide +kernel
  obtain ⟨found, htraverse, hshape⟩ := exists_ok_of_map_answer? hfound
  obtain ⟨hids, hrest⟩ := Prod.mk.inj hshape
  obtain ⟨hkeys, htruncated⟩ := Prod.mk.inj hrest
  have hroom : e.HasRoom t "a" 2 :=
    ⟨by decide +kernel, by decide +kernel, by decide +kernel⟩
  exact ⟨w, hok, by decide +kernel, by decide +kernel, hnodes, hedges, hopen, hhops, hroom, found,
    _, htraverse, hids, hkeys, htruncated⟩

end Engine
end SalientGraph
