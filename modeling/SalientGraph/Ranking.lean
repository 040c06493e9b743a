import SalientGraph.Double
import SalientGraph.Node

/-!
# Ranking

The orders in which scored things are listed, and the cut to the best of them. Scores
are compared by the total order of doubles, in which every double has its place: a
negative zero stands below a positive one and what is no number at the two ends.
-/

namespace SalientGraph

/-- The total order of doubles. -/
def totalOrder (a b : Double) : Ordering :=
  compare a.place b.place

/-- Only doubles of the same bits rank equal. -/
theorem totalOrder_eq_iff {a b : Double} : totalOrder a b = .eq ↔ a = b := by
  simp [totalOrder, Double.place_inj]

/-- The higher of two scores comes first. -/
def descending (a b : Double) : Ordering :=
  totalOrder b a

/-- A list in the order `order`; elements of equal rank stay as they stand. -/
def sortedBy {α : Type} (order : α → α → Ordering) (xs : List α) : List α :=
  xs.mergeSort fun a b => (order a b).isLE

/-- The first `limit` elements of a list in the order `order`. -/
def best {α : Type} (order : α → α → Ordering) (limit : Nat) (xs : List α) : List α :=
  (sortedBy order xs).take limit

/-- A sorted list is in the order that it was sorted by. -/
theorem pairwise_sortedBy {α : Type} {order : α → α → Ordering} [Std.TransCmp order]
    (xs : List α) : (sortedBy order xs).Pairwise fun a b => (order a b).isLE = true := by
  apply List.pairwise_mergeSort
  · intro a b c
    exact Std.TransCmp.isLE_trans
  · intro a b
    have hswap : order b a = (order a b).swap := Std.OrientedCmp.eq_swap
    rw [hswap]
    cases order a b <;> rfl

theorem mem_sortedBy {α : Type} {order : α → α → Ordering} {xs : List α} {x : α} :
    x ∈ sortedBy order xs ↔ x ∈ xs :=
  (List.mergeSort_perm xs _).mem_iff

theorem length_best {α : Type} (order : α → α → Ordering) (limit : Nat) (xs : List α) :
    (best order limit xs).length = min limit xs.length := by
  simp [best, sortedBy, List.length_mergeSort]

/-- Found nodes by descending score, then by identifier. -/
def ScoredNode.order (a b : ScoredNode) : Ordering :=
  (descending (.ofFloat a.score) (.ofFloat b.score)).then (compare a.id b.id)

end SalientGraph
