/-!
# Lists without repetition

`distinct` keeps each element of a list where it first occurs. Requests name
identifiers in this way: a repetition asks for nothing new, and the order of
first mention is the order of the answer.
-/

namespace SalientGraph

variable {α : Type} [BEq α]

/-- The elements of a list, each where it first occurs; those in `seen` are left out. -/
def distinctFrom (seen : List α) : List α → List α
  | [] => []
  | x :: xs => if seen.contains x then distinctFrom seen xs else x :: distinctFrom (x :: seen) xs

/-- The elements of a list, each where it first occurs. -/
def distinct (xs : List α) : List α :=
  distinctFrom [] xs

section
variable [LawfulBEq α]

theorem mem_distinctFrom {x : α} (xs : List α) :
    ∀ seen : List α, x ∈ distinctFrom seen xs ↔ x ∈ xs ∧ x ∉ seen := by
  induction xs with
  | nil => simp [distinctFrom]
  | cons y ys ih =>
    intro seen
    by_cases h : seen.contains y = true
    · rw [distinctFrom, if_pos h, ih, List.mem_cons]
      have hy : y ∈ seen := List.contains_iff_mem.1 h
      constructor
      · rintro ⟨hx, hs⟩
        exact ⟨.inr hx, hs⟩
      · rintro ⟨rfl | hx, hs⟩
        · exact absurd hy hs
        · exact ⟨hx, hs⟩
    · rw [distinctFrom, if_neg h, List.mem_cons, List.mem_cons, ih, List.mem_cons]
      have hy : y ∉ seen := fun hm => h (List.contains_iff_mem.2 hm)
      constructor
      · rintro (rfl | ⟨hx, hs⟩)
        · exact ⟨.inl rfl, hy⟩
        · exact ⟨.inr hx, fun hm => hs (.inr hm)⟩
      · rintro ⟨rfl | hx, hs⟩
        · exact .inl rfl
        · by_cases hxy : x = y
          · exact .inl hxy
          · exact .inr ⟨hx, fun hm => hm.elim hxy hs⟩

theorem nodup_distinctFrom (xs : List α) : ∀ seen : List α, (distinctFrom seen xs).Nodup := by
  induction xs with
  | nil => intro seen; simp [distinctFrom]
  | cons y ys ih =>
    intro seen
    by_cases h : seen.contains y = true
    · rw [distinctFrom, if_pos h]
      exact ih seen
    · rw [distinctFrom, if_neg h, List.nodup_cons]
      exact ⟨fun hm => ((mem_distinctFrom ys _).1 hm).2 List.mem_cons_self, ih _⟩

theorem distinctFrom_of_nodup (xs : List α) :
    ∀ seen : List α, xs.Nodup → (∀ x ∈ xs, x ∉ seen) → distinctFrom seen xs = xs := by
  induction xs with
  | nil => exact fun _ _ _ => rfl
  | cons y ys ih =>
    intro seen hnodup hnew
    obtain ⟨hy, hys⟩ := List.nodup_cons.1 hnodup
    have hunseen : ¬ seen.contains y = true := fun h =>
      hnew y List.mem_cons_self (List.contains_iff_mem.1 h)
    rw [distinctFrom, if_neg hunseen, ih (y :: seen) hys]
    intro x hx hmem
    rcases List.mem_cons.1 hmem with rfl | hseen
    · exact hy hx
    · exact hnew x (List.mem_cons_of_mem y hx) hseen

/-- A list without repetition stays as it is. -/
theorem distinct_of_nodup {xs : List α} (h : xs.Nodup) : distinct xs = xs :=
  distinctFrom_of_nodup xs [] h fun _ _ => List.not_mem_nil

@[simp] theorem mem_distinct {x : α} {xs : List α} : x ∈ distinct xs ↔ x ∈ xs := by
  simp [distinct, mem_distinctFrom]

theorem nodup_distinct (xs : List α) : (distinct xs).Nodup :=
  nodup_distinctFrom xs []

end

end SalientGraph
