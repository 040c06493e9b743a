import Mathlib.Data.List.Sort
import SalientGraph.Store.Candidates

/-!
# Rankings do not depend on the order of what is ranked

The orders by which nodes and candidates are listed are total preorders. When two
elements of a list rank equal only if they are the same, the sorted list is determined
by the elements alone, and so are the best of them.

Lists are sorted by merging, which is a recursion on their length. Inserting one element
after another comes to the same, and is a recursion on the list itself.
-/

namespace SalientGraph

/-- An order of values orders whatever has such a value. -/
theorem transCmp_on {α β : Type} (order : α → α → Ordering) [Std.TransCmp order] (f : β → α) :
    Std.TransCmp fun a b => order (f a) (f b) where
  eq_swap := Std.OrientedCmp.eq_swap
  isLE_trans := Std.TransCmp.isLE_trans

instance : Std.TransCmp totalOrder :=
  transCmp_on compare Double.place

instance : Std.TransCmp descending :=
  inferInstanceAs (Std.TransCmp fun a b => totalOrder b a)

instance : Std.TransCmp Candidate.byTerms :=
  have := transCmp_on descending Candidate.rank
  have := transCmp_on descending fun c : Candidate => c.node.relevance.salience
  have := transCmp_on compare fun c : Candidate => c.node.id
  inferInstanceAs (Std.TransCmp (compareLex _ (compareLex _ _)))

instance : Std.TransCmp Candidate.byCosine :=
  have := transCmp_on descending Candidate.rank
  have := transCmp_on compare fun c : Candidate => c.node.id
  inferInstanceAs (Std.TransCmp (compareLex _ _))

instance : Std.TransCmp ScoredNode.order :=
  have := transCmp_on descending fun s : ScoredNode => Double.ofFloat s.score
  have := transCmp_on compare ScoredNode.id
  inferInstanceAs (Std.TransCmp (compareLex _ _))

variable {α : Type} {order : α → α → Ordering} [Std.TransCmp order]

/-- Lists of the same elements are sorted into the same list, unless different elements of them rank
equal. -/
theorem sortedBy_eq_of_perm {xs ys : List α} (hperm : xs.Perm ys)
    (hsep : ∀ a ∈ xs, ∀ b ∈ xs, order a b = .eq → a = b) :
    sortedBy order xs = sortedBy order ys := by
  refine @List.Perm.eq_of_pairwise _ (fun a b => (order a b).isLE = true) _ _ ?_ ?_ ?_ ?_
  · intro a b ha hb hab hba
    have ha' : a ∈ xs := mem_sortedBy.1 ha
    have hb' : b ∈ xs := hperm.mem_iff.2 (mem_sortedBy.1 hb)
    exact hsep a ha' b hb' (Std.OrientedCmp.isLE_antisymm hab hba)
  · exact pairwise_sortedBy xs
  · exact pairwise_sortedBy ys
  · exact (List.mergeSort_perm xs _).trans (hperm.trans (List.mergeSort_perm ys _).symm)

/-- The best of a list depend on its elements only, unless different ones rank equal. -/
theorem best_eq_of_perm {xs ys : List α} (limit : Nat) (hperm : xs.Perm ys)
    (hsep : ∀ a ∈ xs, ∀ b ∈ xs, order a b = .eq → a = b) :
    best order limit xs = best order limit ys := by
  rw [best, best, sortedBy_eq_of_perm hperm hsep]

/-- What is cut off ranks no better than what is kept. -/
theorem isLE_of_not_mem_best {limit : Nat} {xs : List α} {x y : α} (hx : x ∈ best order limit xs)
    (hy : y ∈ xs) (hcut : y ∉ best order limit xs) : (order x y).isLE = true := by
  have hsorted : (sortedBy order xs).Pairwise fun a b => (order a b).isLE = true :=
    pairwise_sortedBy xs
  have hmem : y ∈ sortedBy order xs := mem_sortedBy.2 hy
  rw [← List.take_append_drop limit (sortedBy order xs)] at hsorted hmem
  have hlate := (List.mem_append.1 hmem).resolve_left hcut
  exact (List.pairwise_append.1 hsorted).2.2 x hx y hlate

omit [Std.TransCmp order] in
/-- What differs from element to element of a list does so among the best of it. -/
theorem nodup_map_best {β : Type} {f : α → β} {limit : Nat} {xs : List α} (h : (xs.map f).Nodup) :
    ((best order limit xs).map f).Nodup := by
  have hsorted : ((sortedBy order xs).map f).Nodup :=
    ((List.mergeSort_perm xs _).map f).nodup_iff.2 h
  rw [best, List.map_take]
  exact (List.take_sublist limit _).nodup hsorted

omit [Std.TransCmp order] in
theorem length_best_le (limit : Nat) (xs : List α) : (best order limit xs).length ≤ limit := by
  rw [length_best]
  exact Nat.min_le_left _ _

omit [Std.TransCmp order] in
/-- A short list that is in order already is its own best. -/
theorem best_of_pairwise {limit : Nat} {xs : List α} (hlength : xs.length ≤ limit)
    (h : xs.Pairwise fun a b => (order a b).isLE = true) : best order limit xs = xs := by
  rw [best, sortedBy, List.mergeSort_of_pairwise h, List.take_of_length_le hlength]

/-! ## Sorting by insertion -/

/-- What ranks behind some elements and not behind the others is inserted between them. -/
theorem orderedInsert_append {β : Type} {r : β → β → Prop} [DecidableRel r] {x : β}
    {before after : List β} (hbefore : ∀ y ∈ before, ¬ r x y) (hafter : ∀ y ∈ after, r x y) :
    (before ++ after).orderedInsert r x = before ++ x :: after := by
  induction before with
  | nil =>
      cases after with
      | nil => rfl
      | cons y after => exact List.orderedInsert_cons_of_le r after (hafter y List.mem_cons_self)
  | cons y before ih =>
      obtain ⟨hfirst, hlater⟩ := List.forall_mem_cons.1 hbefore
      rw [List.cons_append, List.orderedInsert_of_not_le r _ hfirst, ih hlater, List.cons_append]

/-- Both ways of sorting leave elements of equal rank as they stand. -/
theorem sortedBy_eq_insertionSort (xs : List α) :
    sortedBy order xs = xs.insertionSort fun a b => (order a b).isLE = true := by
  induction xs with
  | nil => exact List.mergeSort_nil
  | cons x xs ih =>
      have htotal : ∀ a b, ((order a b).isLE || (order b a).isLE) = true := by
        intro a b
        rw [@Std.OrientedCmp.eq_swap _ order _ b a]
        cases order a b <;> rfl
      obtain ⟨before, after, hsorted, hrest, hbefore⟩ :=
        List.mergeSort_cons (fun _ _ _ => Std.TransCmp.isLE_trans) htotal x xs
      have hpairwise : (sortedBy order (x :: xs)).Pairwise fun a b => (order a b).isLE = true :=
        pairwise_sortedBy _
      rw [sortedBy, hsorted] at hpairwise
      have hbehind : ∀ y ∈ before, ¬ (order x y).isLE = true :=
        fun y hy => by simpa using hbefore y hy
      have hafter := (List.pairwise_cons.1 (List.pairwise_append.1 hpairwise).2.1).1
      rw [List.insertionSort_cons, ← ih, sortedBy, sortedBy, hsorted, hrest]
      exact (orderedInsert_append hbehind hafter).symm

theorem best_eq_insertionSort (limit : Nat) (xs : List α) :
    best order limit xs = (xs.insertionSort fun a b => (order a b).isLE = true).take limit := by
  rw [best, sortedBy_eq_insertionSort]

end SalientGraph
