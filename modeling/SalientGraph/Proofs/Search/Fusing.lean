import SalientGraph.Fusion
import SalientGraph.Proofs.Ranking

/-!
# Fused rankings

The fused entries are those of the nodes that are in any of the lists, each once. Of the
lists only the order of their nodes matters. If there is nothing in all lists but one,
fusing keeps the order of this one, as long as lower ranks contribute less.
-/

namespace SalientGraph
namespace Fusion

variable {hit : ScoredNode} {rank limit : Nat} {fused : List ScoredNode}

/-! ## One entry for each node -/

theorem map_id_add_of_mem (h : hit.id ∈ fused.map ScoredNode.id) :
    (add hit rank fused).map ScoredNode.id = fused.map ScoredNode.id := by
  induction fused with
  | nil => contradiction
  | cons entry rest ih =>
      unfold add
      split
      · rfl
      · rename_i hne
        have hrest : hit.id ∈ rest.map ScoredNode.id :=
          (List.mem_cons.1 h).resolve_left fun heq => hne heq.symm
        rw [List.map_cons, List.map_cons, ih hrest]

theorem add_of_not_mem (h : hit.id ∉ fused.map ScoredNode.id) :
    add hit rank fused = fused ++ [⟨hit.node, contribution rank⟩] := by
  induction fused with
  | nil => rfl
  | cons entry rest ih =>
      have hne : entry.id ≠ hit.id := fun heq => h (heq ▸ List.mem_cons_self)
      unfold add
      rw [if_neg hne, ih fun hmem => h (List.mem_cons_of_mem _ hmem)]
      rfl

theorem nodup_ids_add (h : (fused.map ScoredNode.id).Nodup) :
    ((add hit rank fused).map ScoredNode.id).Nodup := by
  by_cases hmem : hit.id ∈ fused.map ScoredNode.id
  · rw [map_id_add_of_mem hmem]
    exact h
  · rw [add_of_not_mem hmem, List.map_append, List.nodup_append]
    refine ⟨h, List.pairwise_singleton _ _, ?_⟩
    intro id hid last hlast heq
    apply hmem
    rw [heq, List.mem_singleton.1 hlast] at hid
    exact hid

theorem nodup_ids_entries (lists : List (List ScoredNode)) :
    ((entries lists).map ScoredNode.id).Nodup := by
  unfold entries
  generalize positions lists = ps
  have hall : ∀ fused : List ScoredNode, (fused.map ScoredNode.id).Nodup →
      ((ps.foldl (fun fused p => add p.1 p.2 fused) fused).map ScoredNode.id).Nodup := by
    induction ps with
    | nil => exact fun _ h => h
    | cons p ps ih => exact fun _ h => ih _ (nodup_ids_add h)
  exact hall [] .nil

theorem nodup_ids_fuse (lists : List (List ScoredNode)) (limit : Nat) :
    ((fuse lists limit).map ScoredNode.id).Nodup :=
  nodup_map_best (nodup_ids_entries lists)

theorem length_fuse_le (lists : List (List ScoredNode)) (limit : Nat) :
    (fuse lists limit).length ≤ limit :=
  length_best_le limit _

/-! ## Only the order of the nodes matters -/

theorem add_congr {other : ScoredNode} (h : hit.node = other.node) :
    add hit rank fused = add other rank fused := by
  have hid : hit.id = other.id := congrArg Node.id h
  induction fused with
  | nil =>
      unfold add
      rw [h]
  | cons entry rest ih =>
      unfold add
      rw [hid, ih]

/-- The scores that the nodes of the lists come with are of no account. -/
theorem entries_eq_foldl (lists : List (List ScoredNode)) (score : Float) :
    entries lists = ((lists.map fun hits => hits.map (·.node)).flatMap (·.zipIdx 1)).foldl
      (fun fused p => add ⟨p.1, score⟩ p.2 fused) [] := by
  have hpositions : (lists.map fun hits => hits.map (·.node)).flatMap (·.zipIdx 1) =
      (positions lists).map fun p => (p.1.node, p.2) := by
    rw [positions, List.flatMap_map, List.map_flatMap]
    congr 1
    funext hits
    rw [List.zipIdx_map]
    rfl
  rw [hpositions, List.foldl_map]
  unfold entries
  congr 1
  funext fused p
  exact add_congr rfl

theorem fuse_congr {lists others : List (List ScoredNode)}
    (h : (lists.map fun hits => hits.map (·.node)) = others.map fun hits => hits.map (·.node))
    (limit : Nat) : fuse lists limit = fuse others limit := by
  unfold fuse
  rw [entries_eq_foldl lists 0.0, entries_eq_foldl others 0.0, h]

/-! ## A single list -/

/-- Up to the hundredth rank, which is the last one that is answered by default, lower ranks
contribute less. -/
theorem contribution_decreases {i j : Nat} (hi : 1 ≤ i) (hij : i < j) (hj : j ≤ 100) :
    totalOrder (.ofFloat (contribution j)) (.ofFloat (contribution i)) = .lt := by
  have hnext : ∀ k < 100, 1 ≤ k →
      totalOrder (.ofFloat (contribution (k + 1))) (.ofFloat (contribution k)) = .lt := by
    decide +kernel
  induction hij with
  | refl => exact hnext i hj hi
  | step hij ih =>
      have hbefore := ih (Nat.le_of_succ_le hj)
      exact Std.TransCmp.lt_trans (hnext _ hj (Nat.le_trans hi (Nat.le_of_lt hij))) hbefore

/-- Nodes that have no entry yet get one each. -/
theorem foldl_add_of_nodup {ps : List (ScoredNode × Nat)} :
    ∀ {fused : List ScoredNode}, (fused.map ScoredNode.id ++ ps.map (·.1.id)).Nodup →
      ps.foldl (fun fused p => add p.1 p.2 fused) fused =
        fused ++ ps.map fun p => ⟨p.1.node, contribution p.2⟩ := by
  induction ps with
  | nil => exact fun _ => (List.append_nil _).symm
  | cons p ps ih =>
      intro fused h
      have hnew : p.1.id ∉ fused.map ScoredNode.id := fun hmem =>
        (List.nodup_append.1 h).2.2 _ hmem _ List.mem_cons_self rfl
      rw [List.foldl_cons, add_of_not_mem hnew, ih, List.append_assoc]
      · rfl
      · rw [List.map_append, List.append_assoc]
        exact h

/-- If one list only has anything in it, each of its nodes has an entry of its own. -/
theorem entries_single {hits : List ScoredNode} (hids : (hits.map ScoredNode.id).Nodup) :
    entries [hits, []] = (hits.zipIdx 1).map fun p => ⟨p.1.node, contribution p.2⟩ := by
  have hpositions : positions [hits, []] = hits.zipIdx 1 := by
    simp [positions]
  have hfirst : (hits.zipIdx 1).map (·.1.id) = hits.map ScoredNode.id := by
    show (hits.zipIdx 1).map (ScoredNode.id ∘ Prod.fst) = _
    rw [← List.map_map, List.zipIdx_map_fst]
  unfold entries
  rw [hpositions, foldl_add_of_nodup]
  · rfl
  · rw [List.map_nil, List.nil_append, hfirst]
    exact hids

/-- A single list stays in order, if lower ranks contribute less. -/
theorem fuse_single {hits : List ScoredNode} (hids : (hits.map ScoredNode.id).Nodup)
    (hlength : hits.length ≤ limit)
    (hless : ∀ i j, 1 ≤ i → i < j → j ≤ limit →
      totalOrder (.ofFloat (contribution j)) (.ofFloat (contribution i)) = .lt) :
    fuse [hits, []] limit = (hits.zipIdx 1).map fun p => ⟨p.1.node, contribution p.2⟩ := by
  unfold fuse
  rw [entries_single hids]
  apply best_of_pairwise
  · rw [List.length_map, List.length_zipIdx]
    exact hlength
  · have hranks : (hits.zipIdx 1).Pairwise fun p q => p.2 < q.2 := by
      rw [← List.pairwise_map (R := (· < ·)), List.zipIdx_map_snd]
      exact List.pairwise_lt_range'
    rw [List.pairwise_map]
    apply hranks.imp_of_mem
    intro p q hp hq hlt
    -- ranks start with 1, and there are no more of them than hits
    have hfirst : 1 ≤ p.2 := List.le_snd_of_mem_zipIdx hp
    have hlast : q.2 < 1 + hits.length := by
      have h := List.snd_lt_add_of_mem_zipIdx hq
      omega
    have hbefore := hless p.2 q.2 hfirst hlt (by omega)
    unfold ScoredNode.order descending
    rw [hbefore]
    rfl

end Fusion
end SalientGraph
