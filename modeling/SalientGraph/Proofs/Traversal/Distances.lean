import SalientGraph.Proofs.Traversal.Routes

/-!
# Paths that are not truncated are shortest

A path search that does not say that it is truncated has come across no limit: each hop
has looked at all edges that touch its frontier, has found room for all of their ends,
and has gone on from all of them. So after each hop everything within that distance has
been visited, and the target is farther away. When the target is found it is therefore
found at its distance, and when it is not found it is too far away, or nowhere.
-/

namespace SalientGraph

/-- So many steps lead from one node to another, and no fewer do. -/
structure IsDistance (joins : String → String → Prop) (a b : String) (steps : Nat) : Prop where
  near : Reaches joins a steps b
  least : ∀ fewer, Reaches joins a fewer b → steps ≤ fewer

namespace PathSearch

variable {joins : String → String → Prop} {start : String} {hops : Nat} {frontier : List String}
  {current : Ids} {s : PathSearch}

/-! ## Hops that are not hindered -/

/-- A hop that is truncated stays so. -/
theorem truncated_of_follow (pairs : List (String × String)) :
    ∀ {s : PathSearch}, (s.follow current pairs).search.truncated = false → s.truncated = false := by
  induction pairs with
  | nil => exact fun h => h
  | cons pair pairs ih =>
      intro s h
      unfold follow at h
      split at h
      · exact ih h
      · split at h
        · contradiction
        · split at h
          · exact h
          · exact ih (s := s.discover pair.1 pair.2) h

/-- What a hop has come to that has kept no node out and has not found the target: it has visited
the ends of all edges out of the current frontier, and nothing else than it says. -/
structure Unhindered (s : PathSearch) (current : Ids) (pairs : List (String × String))
    (p : Progress) : Prop where
  visited : ∀ id, id ∈ p.search.visited ↔ id ∈ s.visited ∨ id ∈ p.added
  ends : ∀ pair ∈ pairs, pair.1 ∈ current → pair.2 ∈ p.search.visited
  target : s.target ∉ p.added

theorem unhindered_follow (pairs : List (String × String)) :
    ∀ {s : PathSearch}, (s.follow current pairs).found = false →
      (s.follow current pairs).search.truncated = false →
        Unhindered s current pairs (s.follow current pairs) := by
  induction pairs with
  | nil => exact fun _ _ => ⟨by simp [follow], List.forall_mem_nil _, List.not_mem_nil⟩
  | cons pair pairs ih =>
      obtain ⟨origin, id⟩ := pair
      intro s hfound huncut
      unfold follow at hfound huncut ⊢
      by_cases hskip : (!current.contains origin || s.visited.contains id) = true
      · rw [if_pos hskip] at hfound huncut ⊢
        have hrest := ih hfound huncut
        refine ⟨hrest.visited, List.forall_mem_cons.2 ⟨?_, hrest.ends⟩, hrest.target⟩
        -- an edge out of the frontier was left out because its end had been visited
        intro horigin
        have hknown : id ∈ s.visited := by
          simpa [Std.ExtTreeSet.contains_iff_mem.2 horigin] using hskip
        exact (hrest.visited id).2 (.inl hknown)
      · rw [if_neg hskip] at hfound huncut ⊢
        -- a new node is kept out by a cap only, which truncates, or ends the hop as the target
        by_cases hfull : s.cap ≤ s.visited.size
        · rw [if_pos hfull] at huncut
          contradiction
        · rw [if_neg hfull] at hfound huncut ⊢
          by_cases htarget : id = s.target
          · rw [if_pos htarget] at hfound
            contradiction
          · rw [if_neg htarget] at hfound huncut ⊢
            have hrest := ih (s := s.discover origin id) hfound huncut
            have hnew : id ∈ (s.discover origin id).visited := Ids.mem_insert.2 (.inl rfl)
            refine ⟨?_, List.forall_mem_cons.2 ⟨?_, hrest.ends⟩, ?_⟩
            · intro other
              show other ∈ ((s.discover origin id).follow current pairs).search.visited ↔ _
              rw [hrest.visited, List.mem_cons]
              show other ∈ s.visited.insert id ∨ _ ↔ _
              rw [Ids.mem_insert, or_assoc, or_left_comm, eq_comm]
            · exact fun _ => (hrest.visited id).2 (.inl hnew)
            · exact List.not_mem_cons_of_ne_of_not_mem (Ne.symm htarget) hrest.target

/-! ## Complete searches -/

/-- Everything within the hops made has been visited, what is left to be found is found from the
frontier, and the target has not been found. -/
structure Complete (joins : String → String → Prop) (start : String) (hops : Nat)
    (frontier : List String) (s : PathSearch) : Prop where
  visited : ∀ id, Reaches joins start hops id → id ∈ s.visited
  closed : ∀ a ∈ s.visited, a ∉ frontier → ∀ b, joins a b → b ∈ s.visited
  unmet : s.target ∉ s.visited

theorem complete_ofStart (joins : String → String → Prop) {start target : String}
    (hne : start ≠ target) (cap : Nat) :
    (ofStart start target cap).Complete joins start 0 [start] where
  visited id h := by
    cases h
    exact Ids.mem_ofList.2 List.mem_cons_self
  closed a ha hnot := absurd (Ids.mem_ofList.1 ha) hnot
  unmet h := hne (List.mem_singleton.1 (Ids.mem_ofList.1 h)).symm

namespace Complete

/-- Whether something may be hidden does not matter. -/
theorem withTruncated (h : s.Complete joins start hops frontier) (truncated : Bool) :
    Complete joins start hops frontier { s with truncated := truncated } :=
  ⟨h.visited, h.closed, h.unmet⟩

/-- The target is farther away than the hops made. -/
theorem lt_of_reaches (h : s.Complete joins start hops frontier) {steps : Nat}
    (hreach : Reaches joins start steps s.target) : hops < steps :=
  Nat.lt_of_not_le fun hle => h.unmet (h.visited _ (hreach.mono hle))

/-- Where nothing is left to be found, the target cannot be reached at all. -/
theorem not_reaches_of_nil (h : s.Complete joins start hops []) (steps : Nat) :
    ¬ Reaches joins start steps s.target := by
  have hall : ∀ id, Reaches joins start steps id → id ∈ s.visited := by
    intro id hreach
    induction hreach with
    | root more => exact h.visited start (.root hops)
    | step _ hjoins ih => exact h.closed _ ih List.not_mem_nil _ hjoins
  exact fun hreach => h.unmet (hall _ hreach)

/-- After one more hop that has followed all edges out of the frontier and has kept no node out,
everything within one more step has been visited. -/
theorem expand (h : s.Complete joins start hops frontier) {pairs : List (String × String)}
    (hpairs : ∀ a ∈ frontier, ∀ b, joins a b → (a, b) ∈ pairs ∨ (b, a) ∈ pairs)
    (hfound : (s.expand frontier pairs).found = false)
    (huncut : (s.expand frontier pairs).search.truncated = false)
    (htarget : (s.expand frontier pairs).search.target = s.target) :
    (s.expand frontier pairs).search.Complete joins start (hops + 1)
      (s.expand frontier pairs).added := by
  have hhop := unhindered_follow _ hfound huncut
  -- whatever is joined to what was visited before is visited now
  have hclosed : ∀ a ∈ s.visited, ∀ b, joins a b →
      b ∈ (s.expand frontier pairs).search.visited := by
    intro a ha b hjoins
    by_cases hfrontier : a ∈ frontier
    · have hdirected : (a, b) ∈ pairs.flatMap fun pair => [pair, (pair.2, pair.1)] := by
        rw [List.mem_flatMap]
        rcases hpairs a hfrontier b hjoins with hpair | hpair
        · exact ⟨_, hpair, List.mem_cons_self⟩
        · exact ⟨_, hpair, List.mem_cons_of_mem _ List.mem_cons_self⟩
      exact hhop.ends _ hdirected (Ids.mem_ofList.2 hfrontier)
    · exact (hhop.visited b).2 (.inl (h.closed a ha hfrontier b hjoins))
  refine ⟨?_, ?_, ?_⟩
  · intro id hreach
    cases hreach with
    | root => exact (hhop.visited start).2 (.inl (h.visited start (.root hops)))
    | step hbefore hjoins => exact hclosed _ (h.visited _ hbefore) _ hjoins
  · intro a ha hnot
    exact hclosed a (((hhop.visited a).1 ha).resolve_right hnot)
  · rw [htarget]
    exact fun hmem => ((hhop.visited _).1 hmem).elim h.unmet hhop.target

end Complete

/-- As many steps as a trail has lead to its end. -/
theorem Trail.reaches (hsound : s.Sound joins start) {id : String} {ids : List String}
    (h : s.Trail start id ids) : Reaches joins start (ids.length - 1) id := by
  induction h with
  | start => exact .root 0
  | @next parent id ids h hparent ih =>
      have hpos : ids.length - 1 + 1 = ids.length := by
        have hsome : ids ≠ [] := by
          rintro rfl
          exact absurd h.head?_eq (by simp)
        have := List.length_pos_iff.2 hsome
        omega
      rw [List.length_append, List.length_singleton, Nat.add_sub_cancel, ← hpos]
      exact .step ih (hsound.parents hparent).1

end PathSearch

/-! ## Searches -/

/-- A hop that leaves a search untruncated was not saturated. -/
theorem View.not_saturated_of_advance {v : View} {l : TraversalLimits} {frontier : List String}
    {s : PathSearch} (h : (v.advance l frontier s).search.truncated = false) :
    s.truncated = false ∧
      saturated frontier (v.pairsTouching frontier l.perHopEdgeLimit) l.perHopEdgeLimit = false :=
  Bool.or_eq_false_iff.1 (PathSearch.truncated_of_follow _ h)

namespace Tables.WellKeyed

variable {t : Tables} (ht : t.WellKeyed) {l : TraversalLimits} {start : String} {hops steps : Nat}
  {frontier : List String} {s last : PathSearch} {made : List PathHop} {found : Bool}
include ht

/-- A hop that is not truncated leaves a search complete, unless it finds the target. -/
theorem complete_advance (hsound : s.Sound t.Joins start) (hfrontier : s.AllAt start steps frontier)
    (hcomplete : s.truncated = false → s.Complete t.Joins start steps frontier)
    (hfound : (t.view.advance l frontier s).found = false)
    (huncut : (t.view.advance l frontier s).search.truncated = false) :
    (t.view.advance l frontier s).search.Complete t.Joins start (steps + 1)
      (t.view.advance l frontier s).added := by
  obtain ⟨hbefore, hunsaturated⟩ := View.not_saturated_of_advance huncut
  have hlooked := (hcomplete hbefore).withTruncated
    (s.truncated || saturated frontier (t.view.pairsTouching frontier l.perHopEdgeLimit)
      l.perHopEdgeLimit)
  have hwhole := View.whole_of_not_saturated hunsaturated
  exact hlooked.expand (fun _ ha _ => ht.mem_pairsTouching hwhole ha) hfound huncut
    (ht.advanced_advance l hsound hfrontier).target

/-- A search that is not truncated finds the target at its distance, or the target is farther away
than the hops that the search may make. -/
theorem shortest_of_seeks (h : t.view.Seeks l hops frontier s made last found) :
    ∀ {steps : Nat}, s.Sound t.Joins start → s.AllAt start steps frontier →
      (s.truncated = false → s.Complete t.Joins start steps frontier) → last.truncated = false →
        (found = true → ∃ ids, last.Trail start s.target ids ∧
          IsDistance t.Joins start s.target (ids.length - 1)) ∧
        (found = false → ∀ far, Reaches t.Joins start far s.target → steps + hops < far) := by
  induction h with
  | spent frontier s =>
      intro steps _ _ hcomplete huncut
      exact ⟨fun h => (nomatch h), fun _ _ hreach => (hcomplete huncut).lt_of_reaches hreach⟩
  | exhausted hops s =>
      intro steps _ _ hcomplete huncut
      refine ⟨fun h => (nomatch h), fun _ far hreach => ?_⟩
      exact absurd hreach ((hcomplete huncut).not_reaches_of_nil far)
  | @found hops frontier s p _ hhop hfound =>
      intro steps hsound hfrontier hcomplete huncut
      have hadvanced := ht.advanced_advance l hsound hfrontier
      rw [hhop] at hadvanced
      refine ⟨fun _ => ?_, fun h => (nomatch h)⟩
      obtain ⟨ids, hids, hlength⟩ := hadvanced.found hfound _ (List.mem_singleton_self _)
      refine ⟨ids, hids, hids.reaches hadvanced.sound, ?_⟩
      -- nothing within the steps before was the target
      intro fewer hreach
      rw [← hhop] at huncut
      have hfar := (hcomplete (View.not_saturated_of_advance huncut).1).lt_of_reaches hreach
      omega
  | full _ _ _ _ hfull =>
      intro steps _ _ _ huncut
      rw [hfull.1] at huncut
      contradiction
  | @sampled hops frontier sample s last p later found _ hhop _ _ _ hpart _ _ ih =>
      intro steps hsound hfrontier _ huncut
      have hadvanced := ht.advanced_advance l hsound hfrontier
      rw [hhop] at hadvanced
      have hnext : p.search.AllAt start (steps + 1) sample :=
        fun id hid => hadvanced.added id (hpart id hid)
      obtain ⟨htrail, hfar⟩ := ih (hadvanced.sound.withTruncated true) (hnext.withTruncated true)
        -- the sample has truncated the search, so nothing need be known of what it has visited
        (fun h => nomatch h) huncut
      rw [Nat.add_right_comm] at hfar
      rw [← hadvanced.target]
      exact ⟨htrail, hfar⟩
  | @onward hops frontier s last p later found _ hhop hfound _ _ _ ih =>
      intro steps hsound hfrontier hcomplete huncut
      have hadvanced := ht.advanced_advance l hsound hfrontier
      have hmore := ht.complete_advance (l := l) hsound hfrontier hcomplete
      rw [hhop] at hadvanced hmore
      obtain ⟨htrail, hfar⟩ := ih hadvanced.sound hadvanced.added (hmore hfound) huncut
      rw [Nat.add_right_comm] at hfar
      rw [← hadvanced.target]
      exact ⟨htrail, hfar⟩

end Tables.WellKeyed

/-! ## Paths -/

namespace Engine

variable (e : Engine) {tenant : Tenant} {t : Tables}

/-- A path that is not truncated has as many hops as its ends are apart, and where there is none
they are farther apart than a search may go. -/
theorem shortest_of_paths (ht : t.WellKeyed) (hclosed : t.Closed) (hvalid : e.config.IsValid)
    {start target : String} (hne : start ≠ target) {answer : Path} {hops : List PathHop}
    (h : e.Paths tenant t.view start target answer hops) (huncut : answer.truncated = false) :
    (answer.isEmpty = false → IsDistance t.Joins start target answer.hops) ∧
      (answer.isEmpty = true → target ∉ t.nodes ∨
        ∀ far, Reaches t.Joins start far target → e.config.traversal.pathMaxHops < far) := by
  have hroot := e.mem_of_paths ht h
  cases h with
  | same hsame _ => exact absurd hsame hne
  | missing _ _ htarget =>
      refine ⟨fun hsome => (nomatch hsome), fun _ => .inl fun hmem => ?_⟩
      rw [View.node?_view, Std.ExtTreeMap.mem_iff_isSome_getElem?.1 hmem] at htarget
      contradiction
  | @sought _ _ last found _ _ _ hseeks hanswer =>
      have hstart := PathSearch.sound_ofStart t.Joins start target hvalid.pathMaxVisited_pos
      have hat := PathSearch.allAt_start
        (.ofStart start target e.config.traversal.pathMaxVisited) start
      obtain ⟨_, hlast, htarget, _⟩ := ht.sound_of_seeks hseeks hstart hat
      have hshortest := ht.shortest_of_seeks hseeks hstart hat
        fun _ => PathSearch.complete_ofStart t.Joins hne _
      rw [Nat.zero_add] at hshortest
      cases found with
      | false =>
          obtain rfl : answer = .unreachable last.truncated := hanswer
          exact ⟨fun hsome => (nomatch hsome), fun _ => .inr ((hshortest huncut).2 rfl)⟩
      | true =>
          obtain ⟨ids, hids, hdistance⟩ := (hshortest (hanswer.2.symm.trans huncut)).1 rfl
          rw [← htarget] at hids
          -- no edge of the trail dangles, so that nothing is missing in the path
          have hall := e.ids_of_answered ht hanswer hlast hids
          rw [List.filter_eq_self.2
            (hclosed.mem_of_isChain hroot (hids.isChain hlast) hids.head?_eq)] at hall
          refine ⟨fun _ => ?_, fun hnone => ?_⟩
          · rw [Path.hops_eq, hall]
            exact hdistance
          · rw [← Path.ids_eq_nil_iff, hall] at hnone
            rw [hnone] at hids
            exact nomatch hids.head?_eq

/-! ### What is answered in time -/

open TxAction (SettlesIn reading_settlesIn)
open World (Steady placid_steady)

/-- Whatever the sample, what follows comes to the same. -/
theorem settles_sampled {α : Type} {ids : List String} {size : Nat}
    {next : List String → TxAction α} {r : Except Fault α}
    (hnext : ∀ sample, SettlesIn (Steady tenant t) (next sample) r) :
    SettlesIn (Steady tenant t) (Action.inTransaction (e.sample ids size) >>= next) r :=
  ComesTo.whatever (fun _ _ hs => ⟨_, _, rfl,
    ⟨⟨hs.world.alone, hs.world.sound, hs.world.tables⟩, hs.unwritten⟩, Nat.le_refl _⟩) hnext

variable (hopen : e.CanOpen tenant t)
include hopen

/-- Where all payloads can be opened, a search is answered in time. -/
theorem settles_seek (start : String) (hops : Nat) :
    ∀ (frontier : List String) (s : PathSearch),
      SettlesIn (Steady tenant t) ((fun _ => ()) <$> e.seek tenant start hops frontier s)
        (.ok ()) := by
  induction hops with
  | zero => exact fun _ _ => .pure ()
  | succ hops ih =>
      intro frontier s
      unfold seek
      dsimp only
      split
      · exact .pure ()
      · rw [map_bind]
        apply (e.settles_hop frontier).bind (k := fun _ => .ok ())
        intro pairs
        split
        · obtain ⟨nodes, hnodes⟩ := e.exists_nodesIn hopen
            (PathSearch.path (PathSearch.expand _ frontier pairs).search start)
          rw [map_bind]
          apply ((hnodes ▸ e.settles_nodesInOrder _).step).bind (k := fun _ => .ok ())
          exact fun _ => .pure ()
        · split
          · exact .pure ()
          · split
            · rw [map_bind]
              exact e.settles_sampled fun sample => ih sample _
            · exact ih _ _

theorem settles_path {start : String} (hstart : start ∈ t.nodes) (target : String) :
    SettlesIn (Steady tenant t) ((fun _ => ()) <$> e.path tenant start target) (.ok ()) := by
  have hpresent (id : String) :
      SettlesIn (Steady tenant t) (TxAction.step (TxAction.hasNode tenant id))
        (.ok (t.view.node? id).isSome) :=
    SettlesIn.step ((reading_settlesIn (placid_steady tenant t) .node (·.node? id)).bind
      fun row => .pure row.isSome)
  unfold path
  split
  · obtain ⟨node, hnode⟩ := e.exists_nodeIn hopen hstart
    rw [map_bind]
    apply ((hnode ▸ e.settles_requireNode start).step).bind (k := fun _ => .ok ())
    exact fun _ => .pure ()
  · have hfirst := hpresent start
    rw [View.node?_view, Std.ExtTreeMap.mem_iff_isSome_getElem?.1 hstart] at hfirst
    rw [map_bind]
    apply hfirst.bind
      (k := fun present => if present = true then .ok () else .error (.notFound ("node " ++ start)))
    intro present
    cases present with
    | false => exact .throw _
    | true =>
        dsimp only
        rw [if_neg (by decide), map_bind]
        apply (hpresent target).bind (k := fun _ => .ok ())
        intro present
        cases present with
        | false => exact .pure ()
        | true => exact e.settles_seek hopen start _ _ _

/-- In time, a path search from a stored node is answered. -/
theorem settles_shortestPath {start : String} (hstart : start ∈ t.nodes) (target : String) :
    Action.SettlesIn (Steady tenant t) ((fun _ => ()) <$> e.shortestPath tenant start target)
      (.ok ()) := by
  unfold shortestPath
  rw [← Action.transact_map]
  exact Action.transact_settlesIn (placid_steady tenant t) (e.settles_path hopen hstart target)

theorem exists_shortestPath {w : World} (hw : Steady tenant t w) {start : String}
    (hstart : start ∈ t.nodes) (target : String) {scope : Scope}
    (hlasts : scope.Outlasts (e.shortestPath tenant start target) w) :
    ∃ answer u, e.shortestPath tenant start target scope w = .ok answer u := by
  have hsettled := e.settles_shortestPath hopen hstart target
  rw [map_eq_pure_bind] at hsettled
  cases hrun : e.shortestPath tenant start target scope w with
  | ok answer u => exact ⟨answer, u, rfl⟩
  | error f u =>
      have houtcome := (hsettled scope w hw).outcome (by rw [finalState_map]; exact hlasts)
      rw [bind_apply_of_error hrun] at houtcome
      contradiction

omit hopen

/-- Over every committed graph without dangling edges and with every valid configuration: a path
between different nodes that is not truncated has as many hops as they are apart in undirected steps,
and unless there is one the target does not exist or is farther away than a search may go. While
no request fails and all payloads can be opened, a path search from a node is answered within every
scope that outlasts it. -/
theorem untruncated_paths_are_shortest (hvalid : e.config.validate = .ok ()) (w : World)
    (hstore : w.store.Reached) (halone : w.conditions.others = []) (tenant : Tenant)
    (hclosed : (w.store.tablesOf tenant).Closed) (start target : String)
    (hstart : start ∈ (w.store.tablesOf tenant).nodes) (hne : start ≠ target) :
    (∀ scope answer u, e.shortestPath tenant start target scope w = .ok answer u →
      answer.truncated = false →
        (answer.isEmpty = false →
          IsDistance (w.store.tablesOf tenant).Joins start target answer.hops) ∧
        (answer.isEmpty = true → target ∉ (w.store.tablesOf tenant).nodes ∨
          ∀ far, Reaches (w.store.tablesOf tenant).Joins start far target →
            e.config.traversal.pathMaxHops < far)) ∧
    ((∀ served r, w.conditions.failure served r = none) →
      e.CanOpen tenant (w.store.tablesOf tenant) →
        ∀ scope : Scope, scope.Outlasts (e.shortestPath tenant start target) w →
          ∃ answer u, e.shortestPath tenant start target scope w = .ok answer u) := by
  have hconfig := (Config.validate_eq_ok_iff e.config).1 hvalid
  constructor
  · intro scope answer u hrun huncut
    obtain ⟨hops, hrecorded⟩ := e.exists_recorded_of_shortestPath hrun
    obtain ⟨n, ⟨_, hpaths⟩, _⟩ :=
      Action.transact_finds halone (e.finds_pathRecorded start target) hrecorded
    exact e.shortest_of_paths (hstore.wellKeyed tenant) hclosed hconfig hne hpaths huncut
  · intro hsound hopen scope hlasts
    exact e.exists_shortestPath hopen ⟨halone, hsound, rfl⟩ hstart target hlasts

/-- Two ways lead against the edges from the last of four nodes to the first one. The shorter one is
found if there may be as many hops, and with one hop at most nothing is found. -/
theorem untruncated_paths_are_shortest_of_two_ways :
    let engine (maxHops : Nat) : Engine :=
      { config := { traversal := { pathMaxHops := maxHops } }
        nonce := fun _ => [], shuffle := fun _ ids => ids, shuffle_perm := fun _ _ => .refl _ }
    let acme : Tenant := ⟨"acme"⟩
    let node (id : String) : SealedNode := ⟨id, "concept", id, ⟨[0x7b, 0x7d]⟩, none, default⟩
    let edge (a b : String) : SealedEdge := ⟨a, b, "next", 1.0, ⟨[0x7b, 0x7d]⟩, default⟩
    let nodes := ["a", "b", "c", "d"].foldl (fun tx id => tx.stageNode acme id (.put (node id)))
      (Store.begin {} .readWrite).1
    let tx := [edge "a" "b", edge "b" "c", edge "b" "d", edge "c" "d"].foldl
      (fun tx row => tx.stageEdge acme row.key (.put row)) nodes
    let w : World := { World.start {} default with store := Store.commit {} tx }
    let t := w.store.tablesOf acme
    w.store.Reached ∧ w.conditions.others = [] ∧ t.Closed ∧ "d" ∈ t.nodes ∧ "d" ≠ "a" ∧
      (engine 6).config.validate = .ok () ∧ (engine 1).config.validate = .ok () ∧
      (∃ answer u, (engine 6).shortestPath acme "d" "a" .unbounded w = .ok answer u ∧
        answer.truncated = false ∧ answer.ids = ["d", "b", "a"] ∧ IsDistance t.Joins "d" "a" 2) ∧
      ∃ answer u, (engine 1).shortestPath acme "d" "a" .unbounded w = .ok answer u ∧
        answer.truncated = false ∧ answer.isEmpty = true ∧
        ("a" ∉ t.nodes ∨ ∀ far, Reaches t.Joins "d" far "a" → 1 < far) := by
  intro engine acme node edge nodes tx w t
  have hnodes : nodes.Made :=
    .staged {} (.putNode (node "d")) acme (.staged {} (.putNode (node "c")) acme
      (.staged {} (.putNode (node "b")) acme (.staged {} (.putNode (node "a")) acme
        (.begun {} .readWrite) rfl) rfl) rfl) rfl
  have hmade : tx.Made :=
    .staged {} (.putEdge (edge "c" "d")) acme (.staged {} (.putEdge (edge "b" "d")) acme
      (.staged {} (.putEdge (edge "b" "c")) acme (.staged {} (.putEdge (edge "a" "b")) acme
        hnodes rfl) rfl) rfl) rfl
  have hstore : w.store.Reached := .committed (s := {}) (.empty rfl) hmade rfl
  have hids : t.nodes.keys = ["a", "b", "c", "d"] := by decide +kernel
  have hkeys : t.edges.keys =
      [⟨"a", "b", "next"⟩, ⟨"b", "c", "next"⟩, ⟨"b", "d", "next"⟩, ⟨"c", "d", "next"⟩] := by
    decide +kernel
  have hclosed : t.Closed := Tables.closed_of_keys hids hkeys (by decide)
  have hstart : "d" ∈ t.nodes := by
    rw [← Std.ExtTreeMap.mem_keys, hids]
    decide
  have hvalid : (engine 6).config.validate = .ok () := by decide +kernel
  have hvalid' : (engine 1).config.validate = .ok () := by decide +kernel
  have hfar : (answer? ((engine 6).shortestPath acme "d" "a" .unbounded w)).map
      (fun answer => (answer.ids, answer.truncated)) = some (["d", "b", "a"], false) := by
    decide +kernel
  have hnear : (answer? ((engine 1).shortestPath acme "d" "a" .unbounded w)).map
      (fun answer => (answer.isEmpty, answer.truncated)) = some (true, false) := by
    decide +kernel
  obtain ⟨answer, hrun, hshape⟩ := exists_ok_of_map_answer? hfar
  obtain ⟨hpath, huncut⟩ := Prod.mk.inj hshape
  obtain ⟨answer', hrun', hshape'⟩ := exists_ok_of_map_answer? hnear
  obtain ⟨hnone, huncut'⟩ := Prod.mk.inj hshape'
  have hsome : answer.isEmpty = false := by
    rw [← Bool.not_eq_true, ← Path.ids_eq_nil_iff, hpath]
    decide
  have hdistance := ((untruncated_paths_are_shortest (engine 6) hvalid w hstore rfl acme hclosed
    "d" "a" hstart (by decide)).1 .unbounded answer _ hrun huncut).1 hsome
  rw [Path.hops_eq, hpath] at hdistance
  exact ⟨hstore, rfl, hclosed, hstart, by decide, hvalid, hvalid',
    ⟨answer, _, hrun, huncut, hpath, hdistance⟩, answer', _, hrun', huncut', hnone,
    ((untruncated_paths_are_shortest (engine 1) hvalid' w hstore rfl acme hclosed "d" "a" hstart
      (by decide)).1 .unbounded answer' _ hrun' huncut').2 hnone⟩

end Engine
end SalientGraph
