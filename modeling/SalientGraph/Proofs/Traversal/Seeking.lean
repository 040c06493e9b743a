import SalientGraph.Proofs.Opening
import SalientGraph.Proofs.Traversal.Tracing

/-!
# Path searches hop by hop

A path search over a graph that stays as it is goes from frontier to frontier, and
which part of a frontier that is too large it goes on from is left to chance. Its hops
are recorded here: a search that keeps a record makes the same requests and gives the
same answer as one that does not.
-/

namespace SalientGraph

/-- A hop of a path search: the nodes that it has asked about, and what it has come to. -/
structure PathHop where
  frontier : List String
  search : PathSearch

/-- The next hop of a path search in a graph that stays as it is. -/
def View.advance (v : View) (l : TraversalLimits) (frontier : List String) (s : PathSearch) :
    Progress :=
  let pairs := v.pairsTouching frontier l.perHopEdgeLimit
  PathSearch.expand
    { s with truncated := s.truncated || saturated frontier pairs l.perHopEdgeLimit } frontier pairs

/-- A path search in a graph that stays as it is, by so many hops at most: the hops that it makes,
the search that it ends with, and whether this has found the target. Of a frontier that is too large,
any part may be gone on from. -/
inductive View.Seeks (v : View) (l : TraversalLimits) :
    Nat → List String → PathSearch → List PathHop → PathSearch → Bool → Prop where
  | spent (frontier : List String) (s : PathSearch) : v.Seeks l 0 frontier s [] s false
  | exhausted (hops : Nat) (s : PathSearch) : v.Seeks l (hops + 1) [] s [] s false
  | found (hops : Nat) {frontier : List String} {s : PathSearch} {p : Progress}
      (hfrontier : frontier ≠ []) (hhop : v.advance l frontier s = p) (hfound : p.found = true) :
      v.Seeks l (hops + 1) frontier s [⟨frontier, p.search⟩] p.search true
  | full (hops : Nat) {frontier : List String} {s : PathSearch} {p : Progress}
      (hfrontier : frontier ≠ []) (hhop : v.advance l frontier s = p) (hfound : p.found = false)
      (hfull : p.search.truncated = true ∧ l.pathMaxVisited ≤ p.search.visited.size) :
      v.Seeks l (hops + 1) frontier s [⟨frontier, p.search⟩] p.search false
  | sampled {hops : Nat} {frontier sample : List String} {s last : PathSearch} {p : Progress}
      {later : List PathHop} {found : Bool}
      (hfrontier : frontier ≠ []) (hhop : v.advance l frontier s = p) (hfound : p.found = false)
      (hroom : ¬ (p.search.truncated = true ∧ l.pathMaxVisited ≤ p.search.visited.size))
      (hlarge : l.pathFrontierCap < p.added.length) (hpart : ∀ id ∈ sample, id ∈ p.added)
      (hsize : sample.length = l.pathFrontierCap)
      (h : v.Seeks l hops sample { p.search with truncated := true } later last found) :
      v.Seeks l (hops + 1) frontier s (⟨frontier, p.search⟩ :: later) last found
  | onward {hops : Nat} {frontier : List String} {s last : PathSearch} {p : Progress}
      {later : List PathHop} {found : Bool}
      (hfrontier : frontier ≠ []) (hhop : v.advance l frontier s = p) (hfound : p.found = false)
      (hroom : ¬ (p.search.truncated = true ∧ l.pathMaxVisited ≤ p.search.visited.size))
      (hsmall : p.added.length ≤ l.pathFrontierCap)
      (h : v.Seeks l hops p.added p.search later last found) :
      v.Seeks l (hops + 1) frontier s (⟨frontier, p.search⟩ :: later) last found

namespace View.Seeks

variable {v : View} {l : TraversalLimits} {hops : Nat} {frontier : List String}
  {s last : PathSearch} {made : List PathHop} {found : Bool}

theorem length_le (h : v.Seeks l hops frontier s made last found) : made.length ≤ hops := by
  induction h with
  | spent | exhausted => exact Nat.zero_le _
  | found | full => exact Nat.succ_le_succ (Nat.zero_le _)
  | sampled _ _ _ _ _ _ _ _ ih => exact Nat.succ_le_succ ih
  | onward _ _ _ _ _ _ ih => exact Nat.succ_le_succ ih

/-- From a frontier within the cap, a search asks about frontiers within the cap only. -/
theorem frontiers_le (h : v.Seeks l hops frontier s made last found)
    (hfrontier : frontier.length ≤ l.pathFrontierCap) :
    ∀ hop ∈ made, hop.frontier.length ≤ l.pathFrontierCap := by
  induction h with
  | spent | exhausted => exact fun _ hhop => nomatch hhop
  | found | full =>
      intro hop hhop
      rw [List.mem_singleton.1 hhop]
      exact hfrontier
  | sampled _ _ _ _ _ _ hsize _ ih =>
      exact List.forall_mem_cons.2 ⟨hfrontier, ih (Nat.le_of_eq hsize)⟩
  | onward _ _ _ _ hsmall _ ih => exact List.forall_mem_cons.2 ⟨hfrontier, ih hsmall⟩

/-- After the first hop, a search asks about frontiers within the cap only. -/
theorem later_frontiers_le (h : v.Seeks l hops frontier s made last found) :
    ∀ hop ∈ made.tail, hop.frontier.length ≤ l.pathFrontierCap := by
  cases h with
  | spent | exhausted | found | full => exact fun _ hhop => nomatch hhop
  | sampled _ _ _ _ _ _ hsize h => exact h.frontiers_le (Nat.le_of_eq hsize)
  | onward _ _ _ _ hsmall h => exact h.frontiers_le hsmall

end View.Seeks

namespace Tables.WellKeyed

variable {t : Tables} (ht : t.WellKeyed) {l : TraversalLimits} {start : String} {hops : Nat}
  {frontier : List String} {s last : PathSearch} {made : List PathHop} {found : Bool}
include ht

theorem advanced_advance (l : TraversalLimits) {steps : Nat} (hsound : s.Sound t.Joins start)
    (hfrontier : s.AllAt start steps frontier) :
    PathSearch.Advanced t.Joins start s (steps + 1) (t.view.advance l frontier s) := by
  have hlooked := hsound.withTruncated
    (s.truncated || saturated frontier (t.view.pairsTouching frontier l.perHopEdgeLimit)
      l.perHopEdgeLimit)
  have hpairs : ∀ pair ∈ t.view.pairsTouching frontier l.perHopEdgeLimit,
      t.Joins pair.1 pair.2 :=
    fun pair hpair => (ht.joins_of_mem_pairsTouching hpair).1
  have hadvanced := PathSearch.advanced_expand (fun _ _ => Tables.Joins.symm) hpairs hlooked
    (hfrontier.withTruncated _)
  exact ⟨hadvanced.sound, hadvanced.target, hadvanced.cap, hadvanced.keeps, hadvanced.added,
    hadvanced.found⟩

/-- All searches that a path search goes through are sound, and the one that has found the target has
a trail to it. -/
theorem sound_of_seeks (h : t.view.Seeks l hops frontier s made last found) :
    ∀ {steps : Nat}, s.Sound t.Joins start → s.AllAt start steps frontier →
      (∀ hop ∈ made, hop.search.Sound t.Joins start ∧ hop.search.cap = s.cap) ∧
        last.Sound t.Joins start ∧ last.target = s.target ∧
        (found = true → ∃ ids, last.Trail start last.target ids ∧
          ids.length ≤ steps + hops + 1) := by
  induction h with
  | spent | exhausted =>
      intro steps hsound _
      exact ⟨List.forall_mem_nil _, hsound, rfl, fun h => nomatch h⟩
  | found hops _ hhop hfound =>
      intro steps hsound hfrontier
      have hadvanced := ht.advanced_advance l hsound hfrontier
      rw [hhop] at hadvanced
      refine ⟨?_, hadvanced.sound, hadvanced.target, fun _ => ?_⟩
      · intro hop hmem
        rw [List.mem_singleton.1 hmem]
        exact ⟨hadvanced.sound, hadvanced.cap⟩
      · obtain ⟨ids, hids, hlength⟩ := hadvanced.found hfound _ (List.mem_singleton_self _)
        rw [hadvanced.target]
        exact ⟨ids, hids, by omega⟩
  | full hops _ hhop hfound _ =>
      intro steps hsound hfrontier
      have hadvanced := ht.advanced_advance l hsound hfrontier
      rw [hhop] at hadvanced
      refine ⟨?_, hadvanced.sound, hadvanced.target, fun h => nomatch h⟩
      intro hop hmem
      rw [List.mem_singleton.1 hmem]
      exact ⟨hadvanced.sound, hadvanced.cap⟩
  | @sampled hops frontier sample s last p later found _ hhop _ _ _ hpart _ h ih =>
      intro steps hsound hfrontier
      have hadvanced := ht.advanced_advance l hsound hfrontier
      rw [hhop] at hadvanced
      have hnext : p.search.AllAt start (steps + 1) sample :=
        fun id hid => hadvanced.added id (hpart id hid)
      obtain ⟨hmade, hlast, htarget, htrail⟩ :=
        ih (hadvanced.sound.withTruncated true) (hnext.withTruncated true)
      refine ⟨List.forall_mem_cons.2 ⟨⟨hadvanced.sound, hadvanced.cap⟩, ?_⟩, hlast,
        htarget.trans hadvanced.target, ?_⟩
      · exact fun hop hmem => ⟨(hmade hop hmem).1, (hmade hop hmem).2.trans hadvanced.cap⟩
      · intro hfound
        obtain ⟨ids, hids, hle⟩ := htrail hfound
        exact ⟨ids, hids, by omega⟩
  | @onward hops frontier s last p later found _ hhop _ _ _ h ih =>
      intro steps hsound hfrontier
      have hadvanced := ht.advanced_advance l hsound hfrontier
      rw [hhop] at hadvanced
      obtain ⟨hmade, hlast, htarget, htrail⟩ := ih hadvanced.sound hadvanced.added
      refine ⟨List.forall_mem_cons.2 ⟨⟨hadvanced.sound, hadvanced.cap⟩, ?_⟩, hlast,
        htarget.trans hadvanced.target, ?_⟩
      · exact fun hop hmem => ⟨(hmade hop hmem).1, (hmade hop hmem).2.trans hadvanced.cap⟩
      · intro hfound
        obtain ⟨ids, hids, hle⟩ := htrail hfound
        exact ⟨ids, hids, by omega⟩

end Tables.WellKeyed
/-! ## The program -/

namespace Engine

open TxAction (Finds)

variable (e : Engine)

/-- A path search that keeps a record of its hops. -/
def seekRecorded (tenant : Tenant) (start : String) :
    Nat → List String → PathSearch → TxAction (Path × List PathHop)
  | 0, _, s => return (.unreachable s.truncated, [])
  | hops + 1, frontier, s => do
    let limits := e.config.traversal
    if frontier.isEmpty then return (.unreachable s.truncated, [])
    else
      let pairs ← e.hop tenant frontier
      let s := { s with
        truncated := s.truncated || saturated frontier pairs limits.perHopEdgeLimit }
      let p := s.expand frontier pairs
      let hop : PathHop := ⟨frontier, p.search⟩
      if p.found then
        let nodes ← TxAction.step (e.nodesInOrder tenant (p.search.path start))
        return (⟨nodes, p.search.truncated⟩, [hop])
      else if p.search.truncated && limits.pathMaxVisited ≤ p.search.visited.size then
        return (.unreachable p.search.truncated, [hop])
      else if limits.pathFrontierCap < p.added.length then
        let sample ← e.sample p.added limits.pathFrontierCap
        let (answer, later) ←
          seekRecorded tenant start hops sample { p.search with truncated := true }
        return (answer, hop :: later)
      else
        let (answer, later) ← seekRecorded tenant start hops p.added p.search
        return (answer, hop :: later)

/-- To keep a record makes no difference to the search. -/
theorem seek_eq_map_seekRecorded (tenant : Tenant) (start : String) (hops : Nat) :
    ∀ (frontier : List String) (s : PathSearch),
      e.seek tenant start hops frontier s =
        (·.1) <$> e.seekRecorded tenant start hops frontier s := by
  induction hops with
  | zero => exact fun _ _ => rfl
  | succ hops ih =>
      intro frontier s
      unfold seek seekRecorded
      dsimp only
      split
      · rfl
      · rw [map_bind]
        congr 1
        funext pairs
        split
        · rw [map_bind]
          rfl
        · split
          · rfl
          · split
            · rw [map_bind]
              congr 1
              funext sample
              rw [ih, map_bind]
              simp only [map_pure]
              rfl
            · rw [ih, map_bind]
              simp only [map_pure]
              rfl

/-! ## What it finds -/

/-- What a path search answers, by the search that it has ended with. -/
def Answered (tenant : Tenant) (v : View) (start : String) (last : PathSearch) (found : Bool)
    (answer : Path) : Prop :=
  if found then
    e.openNodes tenant (v.nodesOf (last.path start) (last.path start).length) = .ok answer.nodes ∧
      answer.truncated = last.truncated
  else answer = .unreachable last.truncated

variable {tenant : Tenant} {v : View}

/-- A sample is a part of what there was, of the given size if there was enough. -/
theorem finds_sample (ids : List String) (size : Nat) :
    Finds tenant v (Action.inTransaction (e.sample ids size)) fun sample n =>
      n = 0 ∧ (∀ id ∈ sample, id ∈ ids) ∧ sample.length = min size ids.length := by
  intro asked scope s hs
  refine ⟨0, ⟨rfl, ?_, ?_⟩, hs.alone, hs.view, hs.asked⟩
  · intro id hid
    exact (e.shuffle_perm _ ids).mem_iff.1 (List.mem_of_mem_take hid)
  · rw [List.length_take, (e.shuffle_perm _ ids).length_eq]

/-- A recorded search asks once for each hop, and goes as a search in this graph does. -/
theorem finds_seekRecorded (start : String) (hops : Nat) :
    ∀ (frontier : List String) (s : PathSearch),
      Finds tenant v (e.seekRecorded tenant start hops frontier s) fun r n =>
        n = r.2.length ∧ ∃ last found,
          v.Seeks e.config.traversal hops frontier s r.2 last found ∧
            e.Answered tenant v start last found r.1 := by
  induction hops with
  | zero => exact fun frontier s => .pure ⟨rfl, s, false, .spent frontier s, rfl⟩
  | succ hops ih =>
      intro frontier s
      unfold seekRecorded
      dsimp only
      split
      · rename_i hempty
        rw [List.isEmpty_iff.1 hempty]
        exact .pure ⟨rfl, s, false, .exhausted hops s, rfl⟩
      · rename_i hempty
        have hfrontier : frontier ≠ [] := fun h => hempty (List.isEmpty_iff.2 h)
        apply (e.finds_hop frontier).bind
        rintro pairs _ ⟨rfl, rfl⟩
        have hhop : v.advance e.config.traversal frontier s = _ := rfl
        split
        · rename_i hfound
          apply (e.finds_nodesInOrder _).step.bind
          rintro nodes _ ⟨rfl, hopen⟩
          exact .pure ⟨rfl, _, true, .found hops hfrontier hhop hfound, hopen, rfl⟩
        · rename_i hnotfound
          have hfound := Bool.eq_false_iff.2 hnotfound
          split
          · rename_i hfull
            rw [Bool.and_eq_true, decide_eq_true_iff] at hfull
            exact .pure ⟨rfl, _, false, .full hops hfrontier hhop hfound hfull, rfl⟩
          · rename_i hroom
            rw [Bool.and_eq_true, decide_eq_true_iff] at hroom
            split
            · rename_i hlarge
              apply (e.finds_sample _ _).bind
              rintro sample _ ⟨rfl, hpart, hsize⟩
              rw [Nat.min_eq_left (Nat.le_of_lt hlarge)] at hsize
              apply (ih sample _).bind
              rintro ⟨answer, later⟩ _ ⟨rfl, last, found, hseeks, hanswer⟩
              refine .pure ⟨?_, last, found, ?_, hanswer⟩
              · show 1 + (0 + (later.length + 0)) = later.length + 1
                omega
              · exact .sampled hfrontier hhop hfound hroom hlarge hpart hsize hseeks
            · rename_i hsmall
              apply (ih _ _).bind
              rintro ⟨answer, later⟩ _ ⟨rfl, last, found, hseeks, hanswer⟩
              refine .pure ⟨?_, last, found, ?_, hanswer⟩
              · show 1 + (later.length + 0) = later.length + 1
                omega
              · exact .onward hfrontier hhop hfound hroom (Nat.le_of_not_lt hsmall) hseeks

end Engine
end SalientGraph
