import SalientGraph.Proofs.Traversal.Expanding

/-!
# Expansions that are not truncated miss nothing

An expansion that does not say that it is truncated has come across no limit. Each hop
has then looked at all edges that touch its frontier and has found room for all of their
ends. So after each hop everything within that distance has been visited, the nearer
nodes before those farther away, and the expansion ends early only where nothing is left
to be found.
-/

namespace SalientGraph

/-- One of two identifiers is no farther from the root than the other one. -/
def Nearer (joins : String → String → Prop) (root a b : String) : Prop :=
  ∀ hops, Reaches joins root hops b → Reaches joins root hops a

/-! ## Limits that are not reached -/

namespace View

variable {v : View} {limit : Nat} {frontier : List String}

/-- The edges that lead out of a frontier are counted with those of the other direction that lead out
of it as well. -/
theorem countP_source_pairsTouching (v : View) (frontier : List String) (limit : Nat) :
    (v.pairsTouching frontier limit).countP ((Ids.ofList frontier).contains ·.1) =
      (v.scanEdges limit fun e => (Ids.ofList frontier).contains e.source).length +
        (v.scanEdges limit fun e => (Ids.ofList frontier).contains e.target).countP
          fun e => (Ids.ofList frontier).contains e.source := by
  unfold pairsTouching
  dsimp only
  rw [List.countP_map, List.countP_append]
  congr 1
  exact List.countP_eq_length.2 fun e he => (mem_edges_of_mem_scanEdges he).2

/-- The same of the edges that lead into it. -/
theorem countP_target_pairsTouching (v : View) (frontier : List String) (limit : Nat) :
    (v.pairsTouching frontier limit).countP ((Ids.ofList frontier).contains ·.2) =
      ((v.scanEdges limit fun e => (Ids.ofList frontier).contains e.source).countP
          fun e => (Ids.ofList frontier).contains e.target) +
        (v.scanEdges limit fun e => (Ids.ofList frontier).contains e.target).length := by
  unfold pairsTouching
  dsimp only
  rw [List.countP_map, List.countP_append]
  congr 1
  exact List.countP_eq_length.2 fun e he => (mem_edges_of_mem_scanEdges he).2

/-- A hop has come to the end of the edges in both directions. -/
def Whole (v : View) (frontier : List String) (limit : Nat) : Prop :=
  (v.scanEdges limit fun e => (Ids.ofList frontier).contains e.source).length < limit ∧
    (v.scanEdges limit fun e => (Ids.ofList frontier).contains e.target).length < limit

theorem whole_of_not_saturated
    (h : saturated frontier (v.pairsTouching frontier limit) limit = false) :
    v.Whole frontier limit := by
  obtain ⟨hsource, htarget⟩ := Bool.or_eq_false_iff.1 h
  rw [decide_eq_false_iff_not, countP_source_pairsTouching] at hsource
  rw [decide_eq_false_iff_not, countP_target_pairsTouching] at htarget
  constructor <;> omega

/-- A hop that has come to the end of the edges has looked at all that touch its frontier. -/
theorem Whole.mem_pairsTouching (h : v.Whole frontier limit) {row : SealedEdge}
    (hrow : row ∈ v.edges) (hends : row.source ∈ frontier ∨ row.target ∈ frontier) :
    (row.source, row.target) ∈ v.pairsTouching frontier limit := by
  obtain ⟨hout, hin⟩ := h
  apply List.mem_map_of_mem
  apply List.mem_append.2
  rcases hends with hsource | htarget
  · left
    rw [← Ids.mem_ofList] at hsource
    exact (scanEdges_of_length_lt hout).symm ▸ List.mem_filter.2 ⟨hrow, hsource⟩
  · right
    rw [← Ids.mem_ofList] at htarget
    exact (scanEdges_of_length_lt hin).symm ▸ List.mem_filter.2 ⟨hrow, htarget⟩

end View

/-- A visit that keeps nobody out visits all that it is for. -/
theorem mem_visited_of_not_full {cap : Nat} {ids : List String} :
    ∀ {visited : Ids}, (visit cap visited ids).full = false →
      ∀ id ∈ ids, id ∈ (visit cap visited ids).visited := by
  induction ids with
  | nil => exact fun _ _ h => (List.not_mem_nil h).elim
  | cons first ids ih =>
      intro visited hfull id hid
      unfold visit at hfull ⊢
      by_cases hknown : visited.contains first = true
      · rw [if_pos hknown] at hfull ⊢
        rcases List.mem_cons.1 hid with rfl | hmore
        · exact ((visit_extends cap ids visited).visited id).2 (.inl hknown)
        · exact ih hfull id hmore
      · rw [if_neg hknown] at hfull ⊢
        by_cases hroom : cap ≤ visited.size
        · rw [if_pos hroom] at hfull
          contradiction
        · rw [if_neg hroom] at hfull ⊢
          rcases List.mem_cons.1 hid with rfl | hmore
          · exact ((visit_extends cap ids (visited.insert id)).visited id).2
              (.inl (Ids.mem_insert.2 (.inl rfl)))
          · exact ih hfull id hmore

/-! ## Hops -/

namespace Expansion

variable {joins : String → String → Prop} {root : String} {cap hops : Nat} {x : Expansion}

/-- Everything within the hops made has been visited, the nearer identifiers before those farther
away, and nothing is left to be found but from the frontier. -/
structure Complete (joins : String → String → Prop) (root : String) (hops : Nat) (x : Expansion) :
    Prop where
  visited : ∀ id, Reaches joins root hops id → id ∈ x.order
  closed : ∀ a ∈ x.order, a ∉ x.frontier → ∀ b, joins a b → b ∈ x.order
  nearer : x.order.Pairwise (Nearer joins root)

theorem complete_ofRoot (joins : String → String → Prop) (root : String) :
    (ofRoot root).Complete joins root 0 where
  visited id h := by
    cases h
    exact List.mem_cons_self
  closed a ha hnot := absurd ha hnot
  nearer := List.pairwise_singleton _ root

/-- Where the frontier is empty, no more hops find anything. -/
theorem Complete.of_isEmpty (h : x.Complete joins root hops)
    (hrooted : x.Rooted joins root cap hops) (hempty : x.frontier.isEmpty = true) (more : Nat) :
    x.Complete joins root more := by
  have hnone : x.frontier = [] := List.isEmpty_iff.1 hempty
  refine ⟨?_, h.closed, h.nearer⟩
  intro id hreach
  induction hreach with
  | root => exact List.mem_of_mem_head? hrooted.first
  | step _ hjoins ih =>
      refine h.closed _ ih ?_ _ hjoins
      rw [hnone]
      exact List.not_mem_nil

/-- One more hop that has found all ends of edges that touch the frontier, and has kept nobody out,
has visited everything within one more step. -/
theorem Complete.grow (h : x.Complete joins root hops) (hrooted : x.Rooted joins root cap hops)
    {limit : Nat} {pairs : List (String × String)}
    (hpairs : ∀ a ∈ x.frontier, ∀ b, joins a b → (a, b) ∈ pairs ∨ (b, a) ∈ pairs)
    (hfull : (x.grow cap limit pairs).full = false)
    (hgrown : (x.grow cap limit pairs).Rooted joins root cap (hops + 1)) :
    (x.grow cap limit pairs).Complete joins root (hops + 1) := by
  have hvisit := visit_extends cap (pairs.flatMap fun pair => [pair.1, pair.2]) x.visited
  -- whatever is joined to what was visited before is visited now
  have hclosed : ∀ a ∈ x.order, ∀ b, joins a b → b ∈ (x.grow cap limit pairs).order := by
    intro a ha b hjoins
    by_cases hfrontier : a ∈ x.frontier
    · rw [← hgrown.visited]
      apply mem_visited_of_not_full hfull
      apply List.mem_flatMap.2
      rcases hpairs a hfrontier b hjoins with hpair | hpair
      · exact ⟨_, hpair, List.mem_cons_of_mem a List.mem_cons_self⟩
      · exact ⟨_, hpair, List.mem_cons_self⟩
    · exact List.mem_append_left _ (h.closed a ha hfrontier b hjoins)
  -- what is new is as far away as can be
  have hfar : ∀ b ∈ (x.grow cap limit pairs).frontier, ∀ j, Reaches joins root j b → hops < j := by
    intro b hb j hreach
    apply Nat.lt_of_not_le
    intro hle
    exact hvisit.fresh b hb ((hrooted.visited b).2 (h.visited b (hreach.mono hle)))
  refine ⟨?_, ?_, List.pairwise_append.2 ⟨h.nearer, ?_, ?_⟩⟩
  · intro id hreach
    cases hreach with
    | root => exact List.mem_of_mem_head? hgrown.first
    | step hbefore hjoins => exact hclosed _ (h.visited _ hbefore) _ hjoins
  · intro a ha hnot
    exact hclosed a ((List.mem_append.1 ha).resolve_right hnot)
  · apply List.pairwise_of_forall_mem_list
    intro a ha b hb j hreach
    have hreach' := hgrown.near a (List.mem_append_right _ ha)
    exact hreach'.mono (hfar b hb j hreach)
  · intro a ha b hb j hreach
    exact (hrooted.near a ha).mono (Nat.le_of_lt (hfar b hb j hreach))

end Expansion

/-! ## Expansions -/

/-- The expansion after one more hop in a graph. -/
def View.grown (v : View) (l : TraversalLimits) (x : Expansion) : Expansion :=
  x.grow l.maxVisited l.perHopEdgeLimit (v.pairsTouching x.frontier l.perHopEdgeLimit)

theorem View.expand_succ (v : View) (l : TraversalLimits) (hops : Nat) (x : Expansion) :
    v.expand l (hops + 1) x =
      if x.frontier.isEmpty then x
      else if l.maxVisited ≤ x.visited.size then { x with truncated := true }
      else if (v.grown l x).full then v.grown l x
      else v.expand l hops (v.grown l x) :=
  rfl

/-- A hop that leaves an expansion untruncated was not saturated and has kept nobody out. -/
theorem View.cases_of_grown {v : View} {l : TraversalLimits} {x : Expansion}
    (h : (v.grown l x).truncated = false) :
    x.truncated = false ∧
      saturated x.frontier (v.pairsTouching x.frontier l.perHopEdgeLimit) l.perHopEdgeLimit =
        false ∧ (v.grown l x).full = false := by
  obtain ⟨hbefore, hfull⟩ := Bool.or_eq_false_iff.1 h
  obtain ⟨hx, hunsaturated⟩ := Bool.or_eq_false_iff.1 hbefore
  exact ⟨hx, hunsaturated, hfull⟩

/-- No limit keeps an expansion from looking at all edges of its frontiers, nor from visiting all ends
of them. -/
def View.Unhindered (v : View) (l : TraversalLimits) : Nat → Expansion → Prop
  | 0, _ => True
  | hops + 1, x =>
    x.frontier.isEmpty = true ∨
      x.visited.size < l.maxVisited ∧ v.Whole x.frontier l.perHopEdgeLimit ∧
        (v.grown l x).full = false ∧ v.Unhindered l hops (v.grown l x)

/-- An expansion that is truncated stays so. -/
theorem View.truncated_of_expand {v : View} {l : TraversalLimits} (more : Nat) :
    ∀ {x : Expansion}, (v.expand l more x).truncated = false → x.truncated = false := by
  induction more with
  | zero => exact fun h => h
  | succ more ih =>
      intro x h
      rw [expand_succ] at h
      split at h
      · exact h
      · split at h
        · contradiction
        · split at h
          · exact (cases_of_grown h).1
          · exact (cases_of_grown (ih h)).1

theorem View.unhindered_of_not_truncated {v : View} {l : TraversalLimits} (hops : Nat) :
    ∀ {x : Expansion}, (v.expand l hops x).truncated = false → v.Unhindered l hops x := by
  induction hops with
  | zero => exact fun _ => trivial
  | succ hops ih =>
      intro x h
      rw [expand_succ] at h
      by_cases hempty : x.frontier.isEmpty = true
      · exact .inl hempty
      · rw [if_neg hempty] at h
        by_cases hcap : l.maxVisited ≤ x.visited.size
        · rw [if_pos hcap] at h
          contradiction
        · rw [if_neg hcap] at h
          -- the hop itself is not truncated, whether or not there are more of them
          have hhop : (v.grown l x).truncated = false := by
            split at h
            · exact h
            · exact truncated_of_expand hops h
          obtain ⟨_, hunsaturated, hfull⟩ := cases_of_grown hhop
          rw [if_neg (Bool.eq_false_iff.1 hfull)] at h
          exact .inr ⟨Nat.lt_of_not_le hcap, whole_of_not_saturated hunsaturated, hfull, ih h⟩

namespace Tables.WellKeyed

variable {t : Tables} (ht : t.WellKeyed)
include ht

theorem exists_edge_of_mem {key : EdgeKey} (h : key ∈ t.edges) :
    ∃ row ∈ t.view.edges, row.key = key := by
  obtain ⟨row, hrow⟩ := Option.isSome_iff_exists.1 (Std.ExtTreeMap.mem_iff_isSome_getElem?.1 h)
  refine ⟨row, View.mem_edges.2 ⟨key, ?_⟩, ht.edges hrow⟩
  rw [View.edge?_view, hrow]

/-- A hop that has come to the end of the edges has found the ends of every edge out of the frontier,
in whatever direction. -/
theorem mem_pairsTouching {frontier : List String} {limit : Nat}
    (h : t.view.Whole frontier limit) {a b : String} (ha : a ∈ frontier) (hjoins : t.Joins a b) :
    (a, b) ∈ t.view.pairsTouching frontier limit ∨
      (b, a) ∈ t.view.pairsTouching frontier limit := by
  obtain ⟨relation, hforth | hback⟩ := hjoins
  · obtain ⟨row, hrow, hkey⟩ := ht.exists_edge_of_mem hforth
    obtain ⟨rfl, rfl, _⟩ := EdgeKey.mk.inj hkey
    exact .inl (h.mem_pairsTouching hrow (.inl ha))
  · obtain ⟨row, hrow, hkey⟩ := ht.exists_edge_of_mem hback
    obtain ⟨rfl, rfl, _⟩ := EdgeKey.mk.inj hkey
    exact .inr (h.mem_pairsTouching hrow (.inr ha))

variable (l : TraversalLimits) {root : String} {hops : Nat} {x : Expansion}

theorem rooted_grown (h : x.Rooted t.Joins root l.maxVisited hops) :
    (t.view.grown l x).Rooted t.Joins root l.maxVisited (hops + 1) :=
  h.grow (fun _ _ => Tables.Joins.symm) _ fun _ => ht.joins_of_mem_pairsTouching

/-- A hop that no limit hinders leaves an expansion complete. -/
theorem complete_grown (hrooted : x.Rooted t.Joins root l.maxVisited hops)
    (h : x.Complete t.Joins root hops) (hwhole : t.view.Whole x.frontier l.perHopEdgeLimit)
    (hfull : (t.view.grown l x).full = false) :
    (t.view.grown l x).Complete t.Joins root (hops + 1) :=
  h.grow hrooted (fun _ ha _ => ht.mem_pairsTouching hwhole ha) hfull (ht.rooted_grown l hrooted)

/-- An expansion that no limit hinders is complete. -/
theorem complete_expand (more : Nat) :
    ∀ {hops : Nat} {x : Expansion}, x.Rooted t.Joins root l.maxVisited hops →
      x.Complete t.Joins root hops → t.view.Unhindered l more x →
        (t.view.expand l more x).Complete t.Joins root (hops + more) := by
  induction more with
  | zero => exact fun _ h _ => h
  | succ more ih =>
      intro hops x hrooted h hunhindered
      rw [View.expand_succ]
      rcases hunhindered with hempty | ⟨hroom, hwhole, hfull, hlater⟩
      · rw [if_pos hempty]
        exact h.of_isEmpty hrooted hempty _
      · by_cases hempty : x.frontier.isEmpty = true
        · rw [if_pos hempty]
          exact h.of_isEmpty hrooted hempty _
        · rw [if_neg hempty, if_neg (Nat.not_le.2 hroom), if_neg (Bool.eq_false_iff.1 hfull),
            show hops + (more + 1) = hops + 1 + more by omega]
          exact ih (ht.rooted_grown l hrooted) (ht.complete_grown l hrooted h hwhole hfull) hlater

end Tables.WellKeyed
end SalientGraph
