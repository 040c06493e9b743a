import Mathlib.Data.List.Chain
import SalientGraph.Proofs.Traversal.Expanding
import SalientGraph.Traversal.PathSearch

/-!
# Path searches leave trails

Every node that a path search visits but its start has a parent, which an edge joins it
to, and the parents lead back to the start in as many steps as the search has made hops.
So a path that is traced back from the target is one: it leads from the start to the
target along edges and comes to no node twice.
-/

namespace SalientGraph

/-- How a node was come to: the nodes from the start to it, each the parent of the next. -/
inductive PathSearch.Trail (s : PathSearch) (start : String) : String → List String → Prop where
  | start : s.Trail start start [start]
  | next {parent id : String} {ids : List String} (h : s.Trail start parent ids)
      (hparent : s.parents[id]? = some parent) : s.Trail start id (ids ++ [id])

namespace PathSearch

variable {joins : String → String → Prop} {start : String} {s : PathSearch}

/-- Every visited node has a trail, no longer than there are parents, along edges. -/
structure Sound (joins : String → String → Prop) (start : String) (s : PathSearch) : Prop where
  visited : start ∈ s.visited
  orphan : s.parents[start]? = none
  room : s.visited.size ≤ s.cap
  parents : ∀ {id parent : String}, s.parents[id]? = some parent →
    joins parent id ∧ id ∈ s.visited
  trail : ∀ id ∈ s.visited, ∃ ids, s.Trail start id ids ∧ ids.length ≤ s.parents.size + 1

/-- The nodes have trails of so many steps. -/
def AllAt (s : PathSearch) (start : String) (steps : Nat) (ids : List String) : Prop :=
  ∀ id ∈ ids, ∃ trail, s.Trail start id trail ∧ trail.length = steps + 1

/-! ## Trails -/

namespace Trail

variable {id : String} {ids : List String}

theorem getLast?_eq (h : s.Trail start id ids) : ids.getLast? = some id := by
  cases h with
  | start => rfl
  | next _ _ => exact List.getLast?_concat

theorem head?_eq (h : s.Trail start id ids) : ids.head? = some start := by
  induction h with
  | start => rfl
  | next _ _ ih =>
      rw [List.head?_append, ih]
      rfl

/-- A node has one trail at most, since the start has no parent. -/
theorem unique (horphan : s.parents[start]? = none) (h : s.Trail start id ids) :
    ∀ {other : List String}, s.Trail start id other → other = ids := by
  induction h with
  | start =>
      intro other hother
      cases hother with
      | start => rfl
      | next _ hparent =>
          rw [horphan] at hparent
          contradiction
  | next _ hparent ih =>
      intro other hother
      cases hother with
      | start =>
          rw [horphan] at hparent
          contradiction
      | next hrest hparent' =>
          rw [hparent] at hparent'
          obtain rfl := Option.some.inj hparent'
          rw [ih hrest]

/-- Each node on a trail has the trail as far as to it. -/
theorem exists_of_mem (h : s.Trail start id ids) :
    ∀ other ∈ ids, ∃ trail, s.Trail start other trail ∧ trail.length ≤ ids.length := by
  induction h with
  | start =>
      intro other hother
      rw [List.mem_singleton.1 hother]
      exact ⟨[start], .start, Nat.le_refl 1⟩
  | @next parent id ids h hparent ih =>
      intro other hother
      rcases List.mem_append.1 hother with hold | hlast
      · obtain ⟨trail, htrail, hle⟩ := ih other hold
        refine ⟨trail, htrail, Nat.le_trans hle ?_⟩
        rw [List.length_append]
        exact Nat.le_add_right _ _
      · rw [List.mem_singleton.1 hlast]
        exact ⟨ids ++ [id], .next h hparent, Nat.le_refl _⟩

/-- A trail comes to no node twice. -/
theorem nodup (horphan : s.parents[start]? = none) (h : s.Trail start id ids) : ids.Nodup := by
  induction h with
  | start => exact List.pairwise_singleton _ _
  | @next parent id ids h hparent ih =>
      refine List.nodup_append.2 ⟨ih, List.pairwise_singleton _ _, ?_⟩
      rintro other hother last hlast rfl
      obtain rfl := List.mem_singleton.1 hlast
      -- it would have a shorter trail already
      obtain ⟨trail, htrail, hle⟩ := h.exists_of_mem _ hother
      have hsame := (Trail.next h hparent).unique horphan htrail
      rw [hsame, List.length_append, List.length_singleton] at hle
      omega

/-- A trail leads along edges. -/
theorem isChain (hsound : s.Sound joins start) (h : s.Trail start id ids) :
    ids.IsChain joins := by
  induction h with
  | start => exact .singleton start
  | @next parent id ids h hparent ih =>
      refine List.isChain_append.2 ⟨ih, .singleton id, ?_⟩
      intro last hlast first hfirst
      rw [h.getLast?_eq] at hlast
      obtain rfl := Option.some.inj hlast
      obtain rfl := Option.some.inj hfirst
      exact (hsound.parents hparent).1

/-- What has parents keeps its trail when others get parents. -/
theorem mono {s' : PathSearch}
    (hparents : ∀ {id parent : String}, s.parents[id]? = some parent →
      s'.parents[id]? = some parent) (h : s.Trail start id ids) : s'.Trail start id ids := by
  induction h with
  | start => exact .start
  | next _ hparent ih => exact .next ih (hparents hparent)

/-- As far as there are enough steps, the parents lead back along the trail. -/
theorem traceBack_eq (horphan : s.parents[start]? = none) (h : s.Trail start id ids) :
    ∀ {steps : Nat} (rest : List String), ids.length ≤ steps + 1 →
      s.traceBack start steps id (id :: rest) = ids ++ rest := by
  induction h with
  | start =>
      intro steps rest _
      cases steps with
      | zero => rfl
      | succ steps => rw [traceBack, if_pos rfl, List.singleton_append]
  | @next parent id ids h hparent ih =>
      intro steps rest hle
      rw [List.length_append, List.length_singleton] at hle
      have hpos : 0 < ids.length := by
        cases h with
        | start => exact Nat.succ_pos 0
        | next _ _ => simp
      obtain ⟨less, rfl⟩ : ∃ less, steps = less + 1 := ⟨steps - 1, by omega⟩
      have hne : id ≠ start := by
        rintro rfl
        rw [horphan] at hparent
        contradiction
      rw [traceBack, if_neg hne, hparent]
      show s.traceBack start less parent (parent :: id :: rest) = _
      rw [ih (id :: rest) (by omega), List.append_assoc, List.singleton_append]

end Trail

/-- What has a trail is visited. -/
theorem Sound.visited_of_trail (h : s.Sound joins start) {id : String} {ids : List String}
    (htrail : s.Trail start id ids) : id ∈ s.visited := by
  cases htrail with
  | start => exact h.visited
  | next _ hparent => exact (h.parents hparent).2

/-- The path that is traced back from a target with a trail is this trail. -/
theorem Sound.path_eq (h : s.Sound joins start) {ids : List String}
    (htrail : s.Trail start s.target ids) : s.path start = ids := by
  obtain ⟨other, hother, hle⟩ := h.trail s.target (h.visited_of_trail htrail)
  obtain rfl := htrail.unique h.orphan hother
  unfold path
  rw [htrail.traceBack_eq h.orphan [] hle, List.append_nil]

/-! ## Hops -/

theorem sound_ofStart (joins : String → String → Prop) (start target : String) {cap : Nat}
    (hcap : 0 < cap) : (ofStart start target cap).Sound joins start where
  visited := Ids.mem_ofList.2 List.mem_cons_self
  orphan := Std.ExtTreeMap.getElem?_empty
  room := by
    show (Ids.ofList [start]).size ≤ cap
    rw [Ids.size_ofList_singleton]
    exact hcap
  parents h := by
    rw [ofStart, Std.ExtTreeMap.getElem?_empty] at h
    contradiction
  trail id hid := by
    rw [List.mem_singleton.1 (Ids.mem_ofList.1 hid)]
    exact ⟨[start], .start, Nat.le_add_left 1 _⟩

/-- Whether something may be hidden does not matter. -/
theorem Sound.withTruncated (h : s.Sound joins start) (truncated : Bool) :
    Sound joins start { s with truncated := truncated } where
  visited := h.visited
  orphan := h.orphan
  room := h.room
  parents := h.parents
  trail id hid := by
    obtain ⟨ids, hids, hle⟩ := h.trail id hid
    refine ⟨ids, hids.mono ?_, hle⟩
    exact fun hparent => hparent

theorem allAt_start (s : PathSearch) (start : String) : s.AllAt start 0 [start] := by
  intro id hid
  rw [List.mem_singleton.1 hid]
  exact ⟨[start], .start, rfl⟩

theorem allAt_nil {steps : Nat} : s.AllAt start steps [] :=
  List.forall_mem_nil _

theorem AllAt.mono {s' : PathSearch} {steps : Nat} {ids : List String}
    (hparents : ∀ {id parent : String}, s.parents[id]? = some parent →
      s'.parents[id]? = some parent) (h : s.AllAt start steps ids) :
    s'.AllAt start steps ids := by
  intro id hid
  obtain ⟨trail, htrail, hlength⟩ := h id hid
  exact ⟨trail, htrail.mono hparents, hlength⟩

theorem AllAt.withTruncated {steps : Nat} {ids : List String} (h : s.AllAt start steps ids)
    (truncated : Bool) : AllAt { s with truncated := truncated } start steps ids := by
  apply h.mono
  exact fun hparent => hparent

section
variable {origin id : String}

/-- To discover a node changes nothing for those that have parents. -/
theorem Sound.getElem?_discover (h : s.Sound joins start) (hfresh : id ∉ s.visited)
    {other parent : String} (hparent : s.parents[other]? = some parent) :
    (s.discover origin id).parents[other]? = some parent := by
  show (s.parents.insert id origin)[other]? = some parent
  rw [Std.ExtTreeMap.getElem?_insert, if_neg]
  · exact hparent
  · intro heq
    rw [← Std.LawfulEqOrd.eq_of_compare heq] at hparent
    exact hfresh (h.parents hparent).2

theorem trail_discover (h : s.Sound joins start) (hfresh : id ∉ s.visited) {ids : List String}
    (horigin : s.Trail start origin ids) :
    (s.discover origin id).Trail start id (ids ++ [id]) :=
  .next (horigin.mono fun hparent => h.getElem?_discover hfresh hparent)
    Std.ExtTreeMap.getElem?_insert_self

theorem Sound.discover (h : s.Sound joins start) (hfresh : id ∉ s.visited)
    (hroom : s.visited.size < s.cap) (hjoins : joins origin id) (horigin : origin ∈ s.visited) :
    (s.discover origin id).Sound joins start := by
  have hnew : ¬ s.parents.contains id = true := by
    intro hcontains
    rw [Std.ExtTreeMap.contains_eq_isSome_getElem?] at hcontains
    obtain ⟨parent, hparent⟩ := Option.isSome_iff_exists.1 hcontains
    exact hfresh (h.parents hparent).2
  have hsize : (s.discover origin id).parents.size = s.parents.size + 1 := by
    show (s.parents.insert id origin).size = _
    rw [Std.ExtTreeMap.size_insert, if_neg hnew]
  have hold : ∀ {other ids}, s.Trail start other ids → (s.discover origin id).Trail start other ids :=
    fun htrail => htrail.mono fun hparent => h.getElem?_discover hfresh hparent
  refine ⟨Ids.mem_insert.2 (.inr h.visited), ?_, ?_, ?_, ?_⟩
  · show (s.parents.insert id origin)[start]? = none
    rw [Std.ExtTreeMap.getElem?_insert, if_neg]
    · exact h.orphan
    · intro heq
      rw [Std.LawfulEqOrd.eq_of_compare heq] at hfresh
      exact hfresh h.visited
  · show (s.visited.insert id).size ≤ s.cap
    rw [Ids.size_insert_of_not_mem hfresh]
    exact hroom
  · intro other parent hparent
    change (s.parents.insert id origin)[other]? = some parent at hparent
    rw [Std.ExtTreeMap.getElem?_insert] at hparent
    split at hparent
    · rename_i heq
      obtain rfl := Std.LawfulEqOrd.eq_of_compare heq
      obtain rfl := Option.some.inj hparent
      exact ⟨hjoins, Ids.mem_insert.2 (.inl rfl)⟩
    · exact ⟨(h.parents hparent).1, Ids.mem_insert.2 (.inr (h.parents hparent).2)⟩
  · -- there is one more parent, and the longest trail is longer by one node at most
    intro other hother
    rcases Ids.mem_insert.1 hother with rfl | hmem
    · obtain ⟨ids, hids, hle⟩ := h.trail origin horigin
      refine ⟨ids ++ [id], trail_discover h hfresh hids, ?_⟩
      rw [List.length_append, List.length_singleton, hsize]
      omega
    · obtain ⟨ids, hids, hle⟩ := h.trail other hmem
      exact ⟨ids, hold hids, by omega⟩

end

/-- What a hop has come to: a sound search as before with new nodes one step further, among them the
target if it is found. -/
structure Advanced (joins : String → String → Prop) (start : String) (s : PathSearch) (steps : Nat)
    (p : Progress) : Prop where
  sound : p.search.Sound joins start
  target : p.search.target = s.target
  cap : p.search.cap = s.cap
  keeps : ∀ {id parent : String}, s.parents[id]? = some parent →
    p.search.parents[id]? = some parent
  added : p.search.AllAt start steps p.added
  found : p.found = true → p.search.AllAt start steps [s.target]

theorem advanced_follow {steps : Nat} {frontier : List String}
    {pairs : List (String × String)} (hpairs : ∀ pair ∈ pairs, joins pair.1 pair.2) :
    ∀ {s : PathSearch}, s.Sound joins start → s.AllAt start steps frontier →
      Advanced joins start s (steps + 1) (s.follow (Ids.ofList frontier) pairs) := by
  induction pairs with
  | nil =>
      intro s hsound _
      exact ⟨hsound, rfl, rfl, fun h => h, allAt_nil, fun h => nomatch h⟩
  | cons pair pairs ih =>
      obtain ⟨origin, id⟩ := pair
      obtain ⟨hjoins, hrest⟩ := List.forall_mem_cons.1 hpairs
      intro s hsound hfrontier
      unfold follow
      split
      · -- the edge does not come from the frontier, or it leads back
        exact ih hrest hsound hfrontier
      · rename_i hfollowed
        simp only [Bool.or_eq_true, Bool.not_eq_true', not_or, Bool.not_eq_false,
          Bool.not_eq_true] at hfollowed
        obtain ⟨hcurrent, hunvisited⟩ := hfollowed
        have hfresh : id ∉ s.visited := by
          intro hmem
          rw [Std.ExtTreeSet.contains_iff_mem.2 hmem] at hunvisited
          contradiction
        obtain ⟨trail, htrail, hlength⟩ := hfrontier origin (Ids.mem_ofList.1 hcurrent)
        split
        · exact ⟨hsound.withTruncated true, rfl, rfl, fun h => h, allAt_nil, fun h => nomatch h⟩
        · rename_i hroom
          have hdiscover := hsound.discover hfresh (Nat.lt_of_not_le hroom) hjoins
            (hsound.visited_of_trail htrail)
          have hnew : (s.discover origin id).AllAt start (steps + 1) [id] := by
            intro other hother
            rw [List.mem_singleton.1 hother]
            refine ⟨trail ++ [id], trail_discover hsound hfresh htrail, ?_⟩
            rw [List.length_append, List.length_singleton, hlength]
          have hkeeps : ∀ {other parent : String}, s.parents[other]? = some parent →
              (s.discover origin id).parents[other]? = some parent :=
            fun hparent => hsound.getElem?_discover hfresh hparent
          split
          · rename_i htarget
            exact ⟨hdiscover, rfl, rfl, hkeeps, allAt_nil, fun _ => htarget ▸ hnew⟩
          · -- what follows keeps the parents, and so the trails of all that was added before
            have hmore := ih hrest hdiscover (hfrontier.mono hkeeps)
            refine ⟨hmore.sound, hmore.target, hmore.cap, fun h => hmore.keeps (hkeeps h), ?_,
              hmore.found⟩
            intro other hother
            rcases List.mem_cons.1 hother with rfl | hadded
            · exact hnew.mono hmore.keeps _ List.mem_cons_self
            · exact hmore.added other hadded

/-- A hop that finds ends of edges follows them in both directions. -/
theorem advanced_expand (hsymm : ∀ a b, joins a b → joins b a) {steps : Nat}
    {frontier : List String} {pairs : List (String × String)}
    (hpairs : ∀ pair ∈ pairs, joins pair.1 pair.2) (hsound : s.Sound joins start)
    (hfrontier : s.AllAt start steps frontier) :
    Advanced joins start s (steps + 1) (s.expand frontier pairs) := by
  refine advanced_follow ?_ hsound hfrontier
  intro directed hdirected
  obtain ⟨pair, hpair, hmem⟩ := List.mem_flatMap.1 hdirected
  rcases List.mem_cons.1 hmem with rfl | hback
  · exact hpairs directed hpair
  · rw [List.mem_singleton.1 hback]
    exact hsymm _ _ (hpairs pair hpair)

end PathSearch

end SalientGraph
