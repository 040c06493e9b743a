import SalientGraph.Config
import SalientGraph.Proofs.Traversal.Steps
import SalientGraph.Traversal.Expansion

/-!
# Expansions reach what they visit

Hop by hop, an expansion visits nodes that an edge joins to nodes of the hop before, each
of them once. So whatever it has visited can be reached from the root within the hops
made, and the visited nodes are never more than the cap. Over a graph that stays as it
is, the hops follow from each other without any program in between.
-/

namespace SalientGraph

namespace Ids

@[simp] theorem mem_insert {ids : Ids} {id other : String} :
    other ∈ ids.insert id ↔ id = other ∨ other ∈ ids := by
  rw [Std.ExtTreeSet.mem_insert, Std.LawfulEqOrd.compare_eq_iff_eq]

@[simp] theorem mem_ofList {ids : List String} {id : String} : id ∈ ofList ids ↔ id ∈ ids := by
  rw [ofList, Std.ExtTreeSet.mem_ofList, List.contains_iff_mem]

theorem size_insert_of_not_mem {ids : Ids} {id : String} (h : id ∉ ids) :
    (ids.insert id).size = ids.size + 1 := by
  have hcontains : ¬ ids.contains id = true := h
  rw [Std.ExtTreeSet.size_insert, if_neg hcontains]

@[simp] theorem size_ofList_singleton (id : String) : (ofList [id]).size = 1 :=
  Std.ExtTreeSet.size_ofList (List.pairwise_singleton _ _)

end Ids

/-! ## Visits -/

/-- What a visit to some nodes has added is new, named and visited now, within the cap. -/
structure Visit.Extends (cap : Nat) (before : Ids) (ids : List String) (v : Visit) : Prop where
  visited : ∀ id, id ∈ v.visited ↔ id ∈ before ∨ id ∈ v.added
  named : ∀ id ∈ v.added, id ∈ ids
  fresh : ∀ id ∈ v.added, id ∉ before
  nodup : v.added.Nodup
  size : v.visited.size = before.size + v.added.length
  room : before.size ≤ cap → v.visited.size ≤ cap

/-- A visit that adds nothing leaves what was visited. -/
theorem Visit.extends_nothing (cap : Nat) (visited : Ids) (ids : List String) (full : Bool) :
    (Visit.mk [] visited full).Extends cap visited ids where
  visited id := by simp
  named id h := nomatch h
  fresh id h := nomatch h
  nodup := .nil
  size := rfl
  room h := h

theorem visit_extends (cap : Nat) (ids : List String) :
    ∀ visited : Ids, (visit cap visited ids).Extends cap visited ids := by
  induction ids with
  | nil =>
      intro visited
      exact Visit.extends_nothing cap visited [] false
  | cons id ids ih =>
      intro visited
      unfold visit
      split
      · -- named again only
        have hrest := ih visited
        exact ⟨hrest.visited, fun other h => List.mem_cons_of_mem id (hrest.named other h),
          hrest.fresh, hrest.nodup, hrest.size, hrest.room⟩
      · rename_i hfresh
        have hnew : id ∉ visited := hfresh
        split
        · exact Visit.extends_nothing cap visited _ true
        · -- the other identifiers are new to the set with this one in it
          rename_i hroom
          have hrest := ih (visited.insert id)
          have hsize := Ids.size_insert_of_not_mem hnew
          refine ⟨?_, ?_, ?_, ?_, ?_, ?_⟩
          · intro other
            rw [hrest.visited, Ids.mem_insert, List.mem_cons, or_assoc, or_left_comm, eq_comm]
          · intro other hother
            rcases List.mem_cons.1 hother with rfl | hmore
            · exact List.mem_cons_self
            · exact List.mem_cons_of_mem id (hrest.named other hmore)
          · intro other hother
            rcases List.mem_cons.1 hother with rfl | hmore
            · exact hnew
            · exact fun h => hrest.fresh other hmore (Ids.mem_insert.2 (.inr h))
          · refine List.nodup_cons.2 ⟨fun h => ?_, hrest.nodup⟩
            exact hrest.fresh id h (Ids.mem_insert.2 (.inl rfl))
          · show (visit cap (visited.insert id) ids).visited.size = _
            rw [hrest.size, hsize, List.length_cons]
            omega
          · intro _
            apply hrest.room
            omega

/-! ## Hops -/

namespace Expansion

variable {joins : String → String → Prop} {root : String} {cap hops : Nat} {x : Expansion}

/-- Everything visited so far is listed once, the root first, and can be reached from the root within
the hops made. -/
structure Rooted (joins : String → String → Prop) (root : String) (cap hops : Nat) (x : Expansion) :
    Prop where
  first : x.order.head? = some root
  nodup : x.order.Nodup
  visited : ∀ id, id ∈ x.visited ↔ id ∈ x.order
  size : x.visited.size = x.order.length
  room : x.visited.size ≤ cap
  frontier : ∀ id ∈ x.frontier, id ∈ x.order
  near : ∀ id ∈ x.order, Reaches joins root hops id

theorem rooted_ofRoot (joins : String → String → Prop) (root : String) (hcap : 0 < cap) :
    (ofRoot root).Rooted joins root cap 0 where
  first := rfl
  nodup := List.pairwise_singleton _ root
  visited _ := Ids.mem_ofList
  size := Ids.size_ofList_singleton root
  room := by
    show (Ids.ofList [root]).size ≤ cap
    rw [Ids.size_ofList_singleton]
    exact hcap
  frontier _ h := h
  near id h := by
    rw [List.mem_singleton.1 h]
    exact .root 0

theorem Rooted.mono (h : x.Rooted joins root cap hops) {more : Nat} (hle : hops ≤ more) :
    x.Rooted joins root cap more :=
  ⟨h.first, h.nodup, h.visited, h.size, h.room, h.frontier, fun id hid => (h.near id hid).mono hle⟩

/-- One more hop adds what is joined to the nodes that the hop before has added. -/
theorem Rooted.grow (h : x.Rooted joins root cap hops) (hsymm : ∀ a b, joins a b → joins b a)
    (limit : Nat) {pairs : List (String × String)}
    (hpairs : ∀ pair ∈ pairs,
      joins pair.1 pair.2 ∧ (pair.1 ∈ x.frontier ∨ pair.2 ∈ x.frontier)) :
    (x.grow cap limit pairs).Rooted joins root cap (hops + 1) := by
  have hvisit := visit_extends cap (pairs.flatMap fun pair => [pair.1, pair.2]) x.visited
  have hnew : ∀ id ∈ (x.grow cap limit pairs).frontier, Reaches joins root (hops + 1) id := by
    intro id hid
    obtain ⟨pair, hpair, hend⟩ := List.mem_flatMap.1 (hvisit.named id hid)
    obtain ⟨hjoins, hfrontier⟩ := hpairs pair hpair
    -- what was visited before is not new, so it is the other end that the hop has come from
    have hother : id ∉ x.frontier := fun hmem =>
      hvisit.fresh id hid ((h.visited id).2 (h.frontier id hmem))
    rcases List.mem_cons.1 hend with rfl | hsecond
    · have hfrom := hfrontier.resolve_left hother
      exact .step (h.near _ (h.frontier _ hfrom)) (hsymm _ _ hjoins)
    · obtain rfl := List.mem_singleton.1 hsecond
      have hfrom := hfrontier.resolve_right hother
      exact .step (h.near _ (h.frontier _ hfrom)) hjoins
  refine ⟨?_, ?_, ?_, ?_, hvisit.room h.room, fun id => List.mem_append_right x.order, ?_⟩
  · show (x.order ++ _).head? = some root
    rw [List.head?_append, h.first]
    rfl
  · refine List.nodup_append.2 ⟨h.nodup, hvisit.nodup, ?_⟩
    rintro id hold _ hadded rfl
    exact hvisit.fresh id hadded ((h.visited id).2 hold)
  · intro id
    show id ∈ (visit cap x.visited _).visited ↔ id ∈ x.order ++ _
    rw [hvisit.visited, h.visited, List.mem_append]
  · show (visit cap x.visited _).visited.size = (x.order ++ _).length
    rw [hvisit.size, h.size, List.length_append]
  · intro id hid
    rcases List.mem_append.1 hid with hold | hadded
    · exact (h.near id hold).mono (Nat.le_succ hops)
    · exact hnew id hadded

end Expansion

/-- The expansion by so many hops in a graph that stays as it is. -/
def View.expand (v : View) (l : TraversalLimits) : Nat → Expansion → Expansion
  | 0, x => x
  | hops + 1, x =>
    if x.frontier.isEmpty then x
    else if l.maxVisited ≤ x.visited.size then { x with truncated := true }
    else
      let grown := x.grow l.maxVisited l.perHopEdgeLimit
        (v.pairsTouching x.frontier l.perHopEdgeLimit)
      if grown.full then grown else v.expand l hops grown

/-- Whatever an expansion visits, it reaches from the root within its hops. -/
theorem Tables.WellKeyed.rooted_expand {t : Tables} (ht : t.WellKeyed) (l : TraversalLimits)
    {root : String} (more : Nat) :
    ∀ {hops : Nat} {x : Expansion}, x.Rooted t.Joins root l.maxVisited hops →
      (t.view.expand l more x).Rooted t.Joins root l.maxVisited (hops + more) := by
  induction more with
  | zero => exact fun h => h
  | succ more ih =>
      intro hops x h
      have hpairs : ∀ pair ∈ t.view.pairsTouching x.frontier l.perHopEdgeLimit,
          t.Joins pair.1 pair.2 ∧ (pair.1 ∈ x.frontier ∨ pair.2 ∈ x.frontier) :=
        fun pair hpair => ht.joins_of_mem_pairsTouching hpair
      have hgrown := h.grow (fun _ _ => Tables.Joins.symm) l.perHopEdgeLimit hpairs
      unfold View.expand
      -- where the expansion ends early, the hops that are left may have been made as well
      split
      · exact h.mono (Nat.le_add_right _ _)
      · split
        · have hlater := h.mono (Nat.le_add_right hops (more + 1))
          exact ⟨hlater.first, hlater.nodup, hlater.visited, hlater.size, hlater.room,
            hlater.frontier, hlater.near⟩
        · dsimp only
          split
          · exact hgrown.mono (by omega)
          · rw [show hops + (more + 1) = hops + 1 + more by omega]
            exact ih hgrown

end SalientGraph
