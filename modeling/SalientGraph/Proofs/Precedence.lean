import Mathlib.Data.List.Nodup
import Mathlib.Data.String.Basic
import SalientGraph.Proofs.Ranking

/-!
# Who comes before whom

Scored things are listed by their scores, and by something else where these are equal.
What such an order says is read here as a relation, and where no two elements of a list
tie, the sorted list is in strict order and so are the best of it: there is no other way
to list them.
-/

namespace SalientGraph

/-- One comes before another by a higher score or, with the same score, by `first`. -/
def Precedes {α : Type} (score : α → Double) (first : α → α → Prop) (a b : α) : Prop :=
  totalOrder (score b) (score a) = .lt ∨ score a = score b ∧ first a b

variable {α β : Type}

theorem descending_then_eq_lt_iff (score : α → Double) (order : α → α → Ordering)
    {first : α → α → Prop} (hfirst : ∀ a b, order a b = .lt ↔ first a b) (a b : α) :
    (descending (score a) (score b)).then (order a b) = .lt ↔ Precedes score first a b := by
  have hequal : descending (score a) (score b) = .eq ↔ score a = score b :=
    totalOrder_eq_iff.trans eq_comm
  rw [Ordering.then_eq_lt, hequal, hfirst]
  rfl

section

variable {order : α → α → Ordering} [Std.TransCmp order] {key : α → β} {xs : List α}

/-- A list in which nothing ties is sorted strictly. -/
theorem pairwise_lt_sortedBy (hkey : ∀ a b, order a b = .eq → key a = key b)
    (hnodup : (xs.map key).Nodup) : (sortedBy order xs).Pairwise fun a b => order a b = .lt := by
  have hapart : (sortedBy order xs).Pairwise fun a b => key a ≠ key b :=
    List.pairwise_map.1 (((List.mergeSort_perm xs _).map key).nodup_iff.2 hnodup)
  have hsorted : (sortedBy order xs).Pairwise fun a b => (order a b).isLE = true :=
    pairwise_sortedBy xs
  apply hsorted.imp₂ _ hapart
  intro a b hle hne
  cases h : order a b with
  | lt => rfl
  | eq => exact absurd (hkey a b h) hne
  | gt =>
      rw [h] at hle
      contradiction

theorem pairwise_lt_best (hkey : ∀ a b, order a b = .eq → key a = key b)
    (hnodup : (xs.map key).Nodup) (limit : Nat) :
    (best order limit xs).Pairwise fun a b => order a b = .lt :=
  (pairwise_lt_sortedBy hkey hnodup).sublist (List.take_sublist limit _)

/-- Where nothing ties, what is cut off comes after what is kept. -/
theorem lt_of_not_mem_best (hkey : ∀ a b, order a b = .eq → key a = key b)
    (hnodup : (xs.map key).Nodup) {limit : Nat} {x y : α} (hx : x ∈ best order limit xs)
    (hy : y ∈ xs) (hcut : y ∉ best order limit xs) : order x y = .lt := by
  have hle := isLE_of_not_mem_best hx hy hcut
  cases h : order x y with
  | lt => rfl
  | eq =>
      have hx' : x ∈ xs := mem_sortedBy.1 (List.mem_of_mem_take hx)
      have hsame : x = y := List.inj_on_of_nodup_map hnodup hx' hy (hkey x y h)
      exact absurd (hsame ▸ hx) hcut
  | gt =>
      rw [h] at hle
      contradiction

end

end SalientGraph
