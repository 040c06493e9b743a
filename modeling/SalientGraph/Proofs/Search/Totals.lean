import SalientGraph.Proofs.Precedence
import SalientGraph.Proofs.Search.Fusing

/-!
# What the entries of a fused ranking add up to

The entry of a node stands for all positions that the node has in the lists: the node as
it is mentioned first, with the contributions of its positions added up from the left. One
more position counts for the entry of its own node and leaves the others alone, so it does
not matter in which order the entries are kept. Two of them never rank equal, as ties are
broken by the identifiers, and so there is one ranking only to be cut off at the limit.
-/

namespace SalientGraph

/-- Found nodes that rank equal are one node. -/
theorem ScoredNode.id_eq_of_order_eq {a b : ScoredNode} (h : ScoredNode.order a b = .eq) :
    a.id = b.id :=
  Std.LawfulEqOrd.eq_of_compare (Ordering.then_eq_eq.1 h).2

namespace Fusion

variable {hit entry : ScoredNode} {rank limit : Nat} {fused : List ScoredNode} {id : String}
  {lists : List (List ScoredNode)}

/-! ## One more position -/

/-- The entry of a node, if there is one. -/
def entryOf? (id : String) : List ScoredNode → Option ScoredNode
  | [] => none
  | entry :: rest => if entry.id = id then some entry else entryOf? id rest

/-- The entry of a node after one more position of it. -/
def counting : Option ScoredNode → ScoredNode × Nat → Option ScoredNode
  | none, p => some ⟨p.1.node, contribution p.2⟩
  | some entry, p => some { entry with score := entry.score + contribution p.2 }

theorem entryOf?_add_self :
    entryOf? hit.id (add hit rank fused) = counting (entryOf? hit.id fused) (hit, rank) := by
  induction fused with
  | nil => exact if_pos rfl
  | cons entry rest ih =>
      unfold add
      by_cases h : entry.id = hit.id
      · have hcounted : ({ entry with score := entry.score + contribution rank } : ScoredNode).id =
            hit.id := h
        rw [if_pos h, entryOf?, entryOf?, if_pos h, if_pos hcounted]
        rfl
      · rw [if_neg h, entryOf?, entryOf?, if_neg h, if_neg h, ih]

theorem entryOf?_add_of_ne (h : hit.id ≠ id) :
    entryOf? id (add hit rank fused) = entryOf? id fused := by
  induction fused with
  | nil => exact if_neg h
  | cons entry rest ih =>
      unfold add
      split
      · rename_i hsame
        have hother : entry.id ≠ id := hsame ▸ h
        have hcounted : ({ entry with score := entry.score + contribution rank } : ScoredNode).id ≠
            id := hother
        rw [entryOf?, entryOf?, if_neg hother, if_neg hcounted]
      · rw [entryOf?, entryOf?, ih]

/-- Of all positions, those of a node count for its entry. -/
theorem entryOf?_foldl_add (ps : List (ScoredNode × Nat)) :
    ∀ fused : List ScoredNode,
      entryOf? id (ps.foldl (fun fused p => add p.1 p.2 fused) fused) =
        (ps.filter fun p => p.1.id = id).foldl counting (entryOf? id fused) := by
  induction ps with
  | nil => exact fun _ => rfl
  | cons p ps ih =>
      intro fused
      rw [List.foldl_cons, ih]
      by_cases h : p.1.id = id
      · subst h
        rw [List.filter_cons_of_pos (by simp), List.foldl_cons, entryOf?_add_self]
      · rw [List.filter_cons_of_neg (by simpa using h), entryOf?_add_of_ne h]

/-! ## All positions -/

/-- The entry adds up all positions of its node: it has the node of the first of them, and as its
score the sum of their contributions from the left. -/
def Totals (lists : List (List ScoredNode)) (entry : ScoredNode) : Prop :=
  ∃ first more, ((positions lists).filter fun p => p.1.id = entry.id) = first :: more ∧
    entry.node = first.1.node ∧
    entry.score = more.foldl (fun sum p => sum + contribution p.2) (contribution first.2)

theorem foldl_counting_some (more : List (ScoredNode × Nat)) :
    ∀ entry : ScoredNode, more.foldl counting (some entry) =
      some ⟨entry.node, more.foldl (fun sum p => sum + contribution p.2) entry.score⟩ := by
  induction more with
  | nil => exact fun _ => rfl
  | cons p more ih => exact fun entry => ih _

/-- Where there is one entry for each node, it is found. -/
theorem mem_iff_entryOf? (h : (fused.map ScoredNode.id).Nodup) :
    entry ∈ fused ↔ entryOf? entry.id fused = some entry := by
  induction fused with
  | nil => simp [entryOf?]
  | cons first rest ih =>
      obtain ⟨hfirst, hrest⟩ := List.nodup_cons.1 h
      rw [entryOf?, List.mem_cons]
      split
      · rename_i hid
        constructor
        · rintro (rfl | hlater)
          · rfl
          · exact absurd (hid ▸ List.mem_map_of_mem hlater) hfirst
        · rintro ⟨⟩
          exact .inl rfl
      · rename_i hid
        rw [← ih hrest]
        constructor
        · rintro (rfl | hlater)
          · exact absurd rfl hid
          · exact hlater
        · exact .inr

/-- The fused entries are those that add up all positions of a node. -/
theorem mem_entries_iff : entry ∈ entries lists ↔ Totals lists entry := by
  rw [mem_iff_entryOf? (nodup_ids_entries lists), entries, entryOf?_foldl_add, entryOf?, Totals]
  cases (positions lists).filter fun p => p.1.id = entry.id with
  | nil =>
      constructor
      · intro h
        contradiction
      · rintro ⟨_, _, h, _⟩
        contradiction
  | cons first more =>
      show more.foldl counting (some ⟨first.1.node, contribution first.2⟩) = some entry ↔ _
      rw [foldl_counting_some]
      constructor
      · intro h
        cases h
        exact ⟨first, more, rfl, rfl, rfl⟩
      · rintro ⟨_, _, ⟨⟩, hnode, hscore⟩
        rw [← hnode, ← hscore]

theorem map_id_positions (lists : List (List ScoredNode)) :
    (positions lists).map (·.1.id) = lists.flatten.map ScoredNode.id := by
  rw [positions, List.map_flatMap, List.flatten_eq_flatMap, List.map_flatMap]
  congr 1
  funext hits
  show (hits.zipIdx 1).map (ScoredNode.id ∘ Prod.fst) = _
  rw [← List.map_map, List.zipIdx_map_fst]
  rfl

/-- Every node of the lists has a fused entry, and no other node has one. -/
theorem mem_ids_entries_iff :
    id ∈ (entries lists).map ScoredNode.id ↔ id ∈ lists.flatten.map ScoredNode.id := by
  rw [← map_id_positions]
  constructor
  · intro h
    obtain ⟨entry, hentry, rfl⟩ := List.mem_map.1 h
    obtain ⟨first, more, hfilter, -⟩ := mem_entries_iff.1 hentry
    obtain ⟨hfirst, hid⟩ := List.mem_filter.1 (hfilter ▸ List.mem_cons_self)
    exact List.mem_map.2 ⟨first, hfirst, of_decide_eq_true hid⟩
  · intro h
    obtain ⟨p, hp, rfl⟩ := List.mem_map.1 h
    have hcounted : p ∈ (positions lists).filter fun q => q.1.id = p.1.id :=
      List.mem_filter.2 ⟨hp, decide_eq_true rfl⟩
    obtain ⟨first, more, hfilter⟩ := List.exists_cons_of_ne_nil (List.ne_nil_of_mem hcounted)
    have hmem : first ∈ (positions lists).filter fun q => q.1.id = p.1.id := by
      rw [hfilter]
      exact List.mem_cons_self
    have hfirst : first.1.id = p.1.id := of_decide_eq_true (List.mem_filter.1 hmem).2
    rw [← hfirst] at hfilter ⊢
    let entry : ScoredNode :=
      ⟨first.1.node, more.foldl (fun sum q => sum + contribution q.2) (contribution first.2)⟩
    have hentry : entry ∈ entries lists :=
      mem_entries_iff.2 ⟨first, more, hfilter, rfl, rfl⟩
    exact List.mem_map.2 ⟨entry, hentry, rfl⟩

theorem length_entries (lists : List (List ScoredNode)) :
    (entries lists).length = (distinct (lists.flatten.map ScoredNode.id)).length := by
  have hids : ((entries lists).map ScoredNode.id).Perm
      (distinct (lists.flatten.map ScoredNode.id)) := by
    rw [List.perm_ext_iff_of_nodup (nodup_ids_entries lists) (nodup_distinct _)]
    intro id
    rw [mem_ids_entries_iff, mem_distinct]
  rw [← hids.length_eq, List.length_map]

/-! ## The ranking -/

/-- Different entries never rank equal. -/
theorem eq_of_order_eq {a b : ScoredNode} (ha : a ∈ entries lists) (hb : b ∈ entries lists)
    (h : ScoredNode.order a b = .eq) : a = b := by
  rw [mem_iff_entryOf? (nodup_ids_entries lists)] at ha hb
  rw [ScoredNode.id_eq_of_order_eq h, hb] at ha
  exact (Option.some.inj ha).symm

theorem order_eq_lt {a b : ScoredNode} (hne : a.id ≠ b.id)
    (h : (ScoredNode.order a b).isLE = true) : ScoredNode.order a b = .lt := by
  cases hrank : ScoredNode.order a b with
  | lt => rfl
  | eq => exact absurd (ScoredNode.id_eq_of_order_eq hrank) hne
  | gt =>
      rw [hrank] at h
      contradiction

theorem pairwise_fuse (lists : List (List ScoredNode)) (limit : Nat) :
    (fuse lists limit).Pairwise fun a b => ScoredNode.order a b = .lt := by
  have hsame : ∀ a b : ScoredNode, ScoredNode.order a b = .eq → a.id = b.id :=
    fun _ _ => ScoredNode.id_eq_of_order_eq
  exact pairwise_lt_best hsame (nodup_ids_entries lists) limit

/-- For every number of lists, of any lengths and with repetitions in a list and from list to list:
fusing ranks each node of the lists once, up to the limit. An entry has its node as it is mentioned
first, and as its score the sum of the contributions of all positions of the node, added up from the
left; the scores that the lists come with are of no account. Entries are in strict order by score and
identifier, the entries of all nodes left out come later in it, and the order in which the entries
are gathered before they are ranked makes no difference. -/
theorem fuse_adds_up_all_positions (lists : List (List ScoredNode)) (limit : Nat) :
    ((fuse lists limit).map ScoredNode.id).Nodup ∧
      (fuse lists limit).length =
        min limit (distinct (lists.flatten.map ScoredNode.id)).length ∧
      (∀ entry ∈ fuse lists limit, Totals lists entry) ∧
      (∀ others : List (List ScoredNode),
        (others.map fun hits => hits.map (·.node)) = lists.map (fun hits => hits.map (·.node)) →
          fuse others limit = fuse lists limit) ∧
      (fuse lists limit).Pairwise (fun a b => ScoredNode.order a b = .lt) ∧
      (∀ hit ∈ lists.flatten, hit.id ∉ (fuse lists limit).map ScoredNode.id →
        ∃ late, late.id = hit.id ∧ Totals lists late ∧
          ∀ entry ∈ fuse lists limit, ScoredNode.order entry late = .lt) ∧
      ∀ gathered : List ScoredNode, gathered.Perm (entries lists) →
        best ScoredNode.order limit gathered = fuse lists limit := by
  refine ⟨nodup_ids_fuse lists limit, ?_, ?_, ?_, pairwise_fuse lists limit, ?_, ?_⟩
  · rw [fuse, length_best, length_entries]
  · intro entry hentry
    exact mem_entries_iff.1 (mem_sortedBy.1 (List.mem_of_mem_take hentry))
  · intro others hnodes
    exact fuse_congr hnodes limit
  · intro hit hhit hout
    obtain ⟨late, hlate, hid⟩ :=
      List.mem_map.1 (mem_ids_entries_iff.2 (List.mem_map_of_mem (f := ScoredNode.id) hhit))
    refine ⟨late, hid, mem_entries_iff.1 hlate, ?_⟩
    intro entry hentry
    have hne : entry.id ≠ late.id := by
      intro heq
      exact hout (hid ▸ heq ▸ List.mem_map_of_mem hentry)
    have hcut : late ∉ fuse lists limit := fun hmem => hout (hid ▸ List.mem_map_of_mem hmem)
    exact order_eq_lt hne (isLE_of_not_mem_best hentry hlate hcut)
  · intro gathered hperm
    exact best_eq_of_perm limit hperm fun a ha b hb =>
      eq_of_order_eq (hperm.mem_iff.1 ha) (hperm.mem_iff.1 hb)

/-- A node is twice in one list, another one is in both lists, and there is no room for the third one.
The two are ranked by what their two positions add up to, and the third one comes after them. -/
theorem fuse_adds_up_all_positions_of_three_nodes :
    let node (id label : String) : OpenNode := ⟨id, "concept", label, ∅, none, default⟩
    let x := node "x" "first"
    let y := node "y" "other"
    let z := node "z" "last"
    let lists : List (List ScoredNode) :=
      [[⟨x, 0.9⟩, ⟨y, 0.5⟩, ⟨node "x" "second", 0.1⟩], [⟨y, 0.5⟩, ⟨z, 0.25⟩]]
    let both : ScoredNode := ⟨y, contribution 2 + contribution 1⟩
    let twice : ScoredNode := ⟨x, contribution 1 + contribution 3⟩
    fuse lists 2 = [both, twice] ∧
      ∃ late, late.id = "z" ∧ Totals lists late ∧
        ∀ entry ∈ fuse lists 2, ScoredNode.order entry late = .lt := by
  intro node x y z lists both twice
  let once : ScoredNode := ⟨z, contribution 2⟩
  have hentries : entries lists = [twice, both, once] := rfl
  obtain ⟨_, _, _, _, _, hlate, hgathered⟩ := fuse_adds_up_all_positions lists 2
  have hfuse : fuse lists 2 = [both, twice] := by
    -- gathered in the order of the ranking, the entries stay as they are
    have hranked : [both, twice, once].Pairwise fun a b =>
        (ScoredNode.order a b).isLE = true := by
      decide +kernel
    rw [← hgathered [both, twice, once] (hentries ▸ .swap twice both [once]), best, sortedBy,
      List.mergeSort_of_pairwise hranked]
    rfl
  refine ⟨hfuse, hlate ⟨z, 0.25⟩ (by simp [lists]) ?_⟩
  rw [hfuse]
  decide

end Fusion
end SalientGraph
