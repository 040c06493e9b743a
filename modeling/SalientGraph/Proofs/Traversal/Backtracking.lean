import Mathlib.Logic.Relation
import SalientGraph.Proofs.Traversal.Tracing

/-!
# The way back ends at the start

A path search goes hop by hop, each hop from whatever has been kept of the nodes that the
hop before it has added. Whichever edges the hops find, and wherever the cap or the target
ends them, every node but the start is given a parent when it is visited, and is as many
hops from the start as its parent and one more. So the parents form no cycle, and the walk
back over them, which counts no steps, comes to an end at the start.
-/

namespace SalientGraph

/-- The search with another cap. -/
def PathSearch.withCap (s : PathSearch) (cap : Nat) : PathSearch :=
  { s with cap := cap }

def Progress.withCap (p : Progress) (cap : Nat) : Progress :=
  { p with search := p.search.withCap cap }

namespace PathSearch

/-- What a path search has come to after so many hops. Before the first one, the start is all that
there is to go on from. A hop goes on from any of the nodes that the last one has added, in any
order, and finds any ends of edges; in between, the search may be marked as truncated. -/
inductive Hopped (start target : String) (cap : Nat) : Nat → Progress → Prop where
  | begun : Hopped start target cap 0 ⟨[start], false, ofStart start target cap⟩
  | hop {hops : Nat} {p : Progress} {frontier : List String} (h : Hopped start target cap hops p)
      (hkept : ∀ id ∈ frontier, id ∈ p.added) (truncated : Bool)
      (pairs : List (String × String)) :
      Hopped start target cap (hops + 1)
        ({ p.search with truncated := truncated }.expand frontier pairs)

/-! ## Walks back -/

/-- One turn of the walk back: to the parent, which becomes the first of the path. There is none at
the start, and none from a node without a parent. -/
def turnBack? (s : PathSearch) (start : String) :
    String × List String → Option (String × List String)
  | (id, path) =>
    if id = start then none
    else (s.parents[id]?).map fun parent => (parent, parent :: path)

/-- The walk back, for as many turns as there are, ends with this node and this path. -/
structure WalksBack (s : PathSearch) (start : String) (first last : String × List String) :
    Prop where
  turns : Relation.ReflTransGen (fun a b => s.turnBack? start a = some b) first last
  ends : s.turnBack? start last = none

variable {joins : String → String → Prop} {start target : String} {cap hops : Nat} {s : PathSearch}
  {p : Progress}

/-- Along a trail, the walk back ends at the start. -/
theorem Trail.walksBack (horphan : s.parents[start]? = none) {id : String} {ids : List String}
    (h : s.Trail start id ids) :
    ∀ rest : List String, s.WalksBack start (id, id :: rest) (start, ids ++ rest) := by
  have hends : ∀ path, s.turnBack? start (start, path) = none := fun path => if_pos rfl
  -- from the start on: the walk from a child turns to its parent and goes on as from there
  induction h with
  | start => exact fun rest => ⟨.refl, hends _⟩
  | @next parent id ids _ hparent ih =>
      intro rest
      have hne : id ≠ start := by
        rintro rfl
        rw [horphan] at hparent
        contradiction
      have hturn : s.turnBack? start (id, id :: rest) = some (parent, parent :: id :: rest) := by
        rw [turnBack?, if_neg hne, hparent]
        rfl
      rw [List.append_assoc]
      exact ⟨.head hturn (ih (id :: rest)).turns, hends _⟩

/-- The visited nodes with a parent are all but the start. -/
theorem Sound.mem_parents_iff (h : s.Sound joins start) (id : String) :
    id ∈ s.parents ↔ id ∈ s.visited ∧ id ≠ start := by
  rw [Std.ExtTreeMap.mem_iff_isSome_getElem?, Option.isSome_iff_exists]
  constructor
  · rintro ⟨parent, hparent⟩
    refine ⟨(h.parents hparent).2, ?_⟩
    rintro rfl
    rw [h.orphan] at hparent
    contradiction
  · rintro ⟨hvisited, hne⟩
    obtain ⟨ids, htrail, _⟩ := h.trail id hvisited
    cases htrail with
    | start => contradiction
    | next _ hparent => exact ⟨_, hparent⟩

/-! ## Caps -/

@[simp] theorem visited_withCap (s : PathSearch) (cap : Nat) :
    (s.withCap cap).visited = s.visited := rfl

@[simp] theorem parents_withCap (s : PathSearch) (cap : Nat) :
    (s.withCap cap).parents = s.parents := rfl

@[simp] theorem target_withCap (s : PathSearch) (cap : Nat) :
    (s.withCap cap).target = s.target := rfl

theorem traceBack_withCap (s : PathSearch) (cap : Nat) (start : String) (steps : Nat) :
    ∀ (id : String) (path : List String),
      (s.withCap cap).traceBack start steps id path = s.traceBack start steps id path := by
  induction steps with
  | zero => exact fun _ _ => rfl
  | succ steps ih =>
      intro id path
      unfold traceBack
      rw [parents_withCap]
      simp only [ih]

@[simp] theorem path_withCap (s : PathSearch) (cap : Nat) (start : String) :
    (s.withCap cap).path start = s.path start :=
  s.traceBack_withCap cap start _ _ _

theorem cap_follow (current : Ids) (pairs : List (String × String)) :
    ∀ s : PathSearch, (s.follow current pairs).search.cap = s.cap := by
  induction pairs with
  | nil => exact fun s => rfl
  | cons pair pairs ih =>
      intro s
      unfold follow
      split
      · exact ih s
      · split
        · rfl
        · split
          · rfl
          · exact ih (s.discover pair.1 pair.2)

/-- Two caps that are reached by the same numbers of visited nodes end a hop alike. -/
theorem follow_withCap (current : Ids) (pairs : List (String × String)) :
    ∀ {s : PathSearch}, (∀ size, s.visited.size ≤ size → (cap ≤ size ↔ s.cap ≤ size)) →
      (s.withCap cap).follow current pairs = (s.follow current pairs).withCap cap := by
  induction pairs with
  | nil => exact fun _ => rfl
  | cons pair pairs ih =>
      obtain ⟨origin, id⟩ := pair
      intro s hsame
      have hfull : (s.withCap cap).cap ≤ s.visited.size ↔ s.cap ≤ s.visited.size :=
        hsame _ (Nat.le_refl _)
      unfold follow
      rw [visited_withCap, target_withCap]
      by_cases hpassed : (!current.contains origin || s.visited.contains id) = true
      · rw [if_pos hpassed, if_pos hpassed]
        exact ih hsame
      · rw [if_neg hpassed, if_neg hpassed]
        by_cases hcap : s.cap ≤ s.visited.size
        · rw [if_pos hcap, if_pos (hfull.2 hcap)]
          rfl
        · rw [if_neg hcap, if_neg fun h => hcap (hfull.1 h)]
          by_cases htarget : id = s.target
          · rw [if_pos htarget, if_pos htarget]
            rfl
          · rw [if_neg htarget, if_neg htarget]
            have hmore := @ih (s.discover origin id) fun size hsize =>
              hsame size (Nat.le_trans Std.ExtTreeSet.size_le_size_insert hsize)
            exact congrArg (fun more : Progress => { more with added := id :: more.added }) hmore

/-- As the start is visited from the beginning, a cap of 0 is reached as soon as one of 1. -/
theorem expand_withCap (hvisited : start ∈ s.visited) (frontier : List String)
    (pairs : List (String × String)) :
    (s.withCap (max 1 s.cap)).expand frontier pairs =
      (s.expand frontier pairs).withCap (max 1 s.cap) := by
  apply follow_withCap
  have hpos : s.visited.size ≠ 0 := by
    intro hempty
    rw [Std.ExtTreeSet.eq_empty_iff_size_eq_zero.2 hempty] at hvisited
    exact Std.ExtTreeSet.not_mem_empty hvisited
  omega

/-! ## Hops -/

namespace Hopped

/-- After so many hops, the search is sound within a cap of 1 at least, and what the last hop has
added is as many steps from the start. -/
structure Levelled (start target : String) (cap hops : Nat) (p : Progress) : Prop where
  sameCap : p.search.cap = cap
  sameTarget : p.search.target = target
  sound : (p.search.withCap (max 1 cap)).Sound (fun _ _ => True) start
  added : (p.search.withCap (max 1 cap)).AllAt start hops p.added
  found : p.found = true → (p.search.withCap (max 1 cap)).AllAt start hops [target]

theorem levelled (h : Hopped start target cap hops p) : Levelled start target cap hops p := by
  -- a search is sound only within a cap that is not 0, so each hop is made with `max 1 cap` instead
  induction h with
  | begun =>
      have hstart := sound_ofStart (fun _ _ => True) start target (Nat.le_max_left 1 cap)
      exact ⟨rfl, rfl, hstart, allAt_start _ start, fun h => nomatch h⟩
  | @hop hops p frontier _ hkept truncated pairs ih =>
      let s := { p.search with truncated := truncated }
      have hcap : s.cap = cap := ih.sameCap
      have hsound : (s.withCap (max 1 cap)).Sound (fun _ _ => True) start :=
        ih.sound.withTruncated truncated
      have hfrontier : (s.withCap (max 1 cap)).AllAt start hops frontier :=
        AllAt.withTruncated (fun id hid => ih.added id (hkept id hid)) truncated
      have hadvanced : Advanced (fun _ _ => True) start (s.withCap (max 1 cap)) (hops + 1)
          ((s.withCap (max 1 cap)).expand frontier pairs) :=
        advanced_expand (fun _ _ h => h) (fun _ _ => trivial) hsound hfrontier
      have hsame : (s.withCap (max 1 cap)).expand frontier pairs =
          (s.expand frontier pairs).withCap (max 1 cap) := by
        rw [← hcap]
        exact expand_withCap (s := s) hsound.visited frontier pairs
      rw [hsame] at hadvanced
      refine ⟨(cap_follow _ _ s).trans hcap, ?_, hadvanced.sound, hadvanced.added, ?_⟩
      · exact hadvanced.target.trans ih.sameTarget
      · intro hfound
        have hat := hadvanced.found hfound
        rw [target_withCap, show s.target = target from ih.sameTarget] at hat
        exact hat

end Hopped

/-- Over every path search, with any cap, whichever edges its hops find and whichever of the nodes that
a hop has added the next one goes on from: the nodes with a parent are the visited ones but the
start; the parents lead back from every visited node to the start and come to no node twice; no more
nodes are visited than the cap allows, or the start alone; and if the last hop has found the target,
the walk back from there, which counts no steps, ends at the start, with a path through different
visited nodes that has one more of them than there were hops. -/
theorem parents_lead_back (start target : String) (cap hops : Nat) (p : Progress)
    (h : Hopped start target cap hops p) :
    (∀ id, id ∈ p.search.parents ↔ id ∈ p.search.visited ∧ id ≠ start) ∧
    (∀ id ∈ p.search.visited, ∃ ids, p.search.Trail start id ids ∧ ids.Nodup) ∧
    p.search.visited.size ≤ max 1 cap ∧
    (p.found = true →
      let path := p.search.path start
      p.search.WalksBack start (target, [target]) (start, path) ∧
        path.head? = some start ∧ path.getLast? = some target ∧ path.Nodup ∧
        (∀ id ∈ path, id ∈ p.search.visited) ∧ path.length = hops + 1) := by
  have hlevelled := h.levelled
  have hsound := hlevelled.sound
  have horphan : p.search.parents[start]? = none := hsound.orphan
  have hsame : ∀ {id parent : String}, (p.search.withCap (max 1 cap)).parents[id]? = some parent →
      p.search.parents[id]? = some parent := fun hparent => hparent
  refine ⟨hsound.mem_parents_iff, ?_, hsound.room, ?_⟩
  · intro id hid
    obtain ⟨ids, hids, _⟩ := hsound.trail id hid
    exact ⟨ids, hids.mono hsame, (hids.mono hsame).nodup horphan⟩
  · intro hfound path
    obtain ⟨ids, hids, hlength⟩ := hlevelled.found hfound target (List.mem_singleton_self target)
    have hpath : path = ids := by
      rw [← hlevelled.sameTarget, ← target_withCap p.search (max 1 cap)] at hids
      exact (path_withCap p.search _ start).symm.trans (hsound.path_eq hids)
    rw [hpath]
    have hwalk := (hids.mono hsame).walksBack horphan []
    rw [List.append_nil] at hwalk
    refine ⟨hwalk, hids.head?_eq, hids.getLast?_eq, hids.nodup hsound.orphan, ?_, hlength⟩
    intro id hid
    obtain ⟨trail, htrail, _⟩ := hids.exists_of_mem id hid
    exact hsound.visited_of_trail htrail

/-- Two hops, the second one from one of the two nodes that the first one has added. Edges lead back and
across, and the target is found when the cap is about to be reached. -/
theorem parents_lead_back_around_a_cycle :
    let first := (ofStart "a" "d" 4).expand ["a"] [("a", "b"), ("c", "a"), ("b", "a")]
    let second := first.search.expand ["c"] [("c", "b"), ("a", "c"), ("d", "c"), ("b", "d")]
    Hopped "a" "d" 4 2 second ∧ second.found = true ∧
      second.search.parents.toList = [("b", "a"), ("c", "a"), ("d", "c")] ∧
      second.search.visited.size ≤ max 1 4 ∧
      second.search.WalksBack "a" ("d", ["d"]) ("a", ["a", "c", "d"]) ∧
      second.search.path "a" = ["a", "c", "d"] ∧ (second.search.path "a").length = 2 + 1 := by
  intro first second
  have hfirst : Hopped "a" "d" 4 1 first := .hop .begun (fun _ hid => hid) false _
  have hkept : ∀ id ∈ ["c"], id ∈ first.added := by decide +kernel
  have hsecond : Hopped "a" "d" 4 2 second := .hop hfirst hkept first.search.truncated _
  have hfound : second.found = true := by decide +kernel
  have hparents : second.search.parents.toList = [("b", "a"), ("c", "a"), ("d", "c")] := by
    decide +kernel
  have hpath : second.search.path "a" = ["a", "c", "d"] := by decide +kernel
  obtain ⟨_, _, hroom, hback⟩ := parents_lead_back "a" "d" 4 2 second hsecond
  obtain ⟨hwalk, _, _, _, _, hlength⟩ := hback hfound
  rw [hpath] at hwalk
  exact ⟨hsecond, hfound, hparents, hroom, hwalk, hpath, hlength⟩

end PathSearch
end SalientGraph
