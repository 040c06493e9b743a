import SalientGraph.Proofs.Discipline

/-!
# Contracts

What an action leaves behind, given what it finds: with an answer or with a fault, since
it may fail at any point and what it has done until there stays. A chain of actions is
checked link by link.
-/

namespace SalientGraph

variable {σ α β : Type}

/-- Where `before` holds, the action ends where `after` holds with its answer, or where `failed`
holds with its fault. -/
def Meets (act : Acts σ α) (before : σ → Prop) (after : α → σ → Prop)
    (failed : Fault → σ → Prop) : Prop :=
  ∀ scope s, before s →
    match act scope s with
    | .ok a t => after a t
    | .error f t => failed f t

namespace Meets

variable {before : σ → Prop} {failed : Fault → σ → Prop}

theorem pure {after : α → σ → Prop} {a : α} (h : ∀ s, before s → after a s) :
    Meets (Pure.pure a : Acts σ α) before after failed :=
  fun _ s hs => h s hs

theorem throw {after : α → σ → Prop} {f : Fault} (h : ∀ s, before s → failed f s) :
    Meets (MonadExcept.throw f : Acts σ α) before after failed :=
  fun _ s hs => h s hs

theorem bind {act : Acts σ α} {next : α → Acts σ β} {middle : α → σ → Prop}
    {after : β → σ → Prop} (h : Meets act before middle failed)
    (hnext : ∀ a, Meets (next a) (middle a) after failed) :
    Meets (act >>= next) before after failed := by
  intro scope s hs
  have hact := h scope s hs
  show match EStateM.bind (act scope) (fun a => next a scope) s with
    | .ok b t => after b t
    | .error f t => failed f t
  unfold EStateM.bind
  cases hrun : act scope s with
  | ok a t =>
      rw [hrun] at hact
      exact hnext a scope t hact
  | error f t =>
      rw [hrun] at hact
      exact hact

theorem weaken {act : Acts σ α} {before' : σ → Prop} {after after' : α → σ → Prop}
    {failed' : Fault → σ → Prop} (h : Meets act before after failed)
    (hbefore : ∀ s, before' s → before s) (hafter : ∀ a s, after a s → after' a s)
    (hfailed : ∀ f s, failed f s → failed' f s) : Meets act before' after' failed' := by
  intro scope s hs
  have hact := h scope s (hbefore s hs)
  cases hrun : act scope s with
  | ok a t =>
      rw [hrun] at hact
      exact hafter a t hact
  | error f t =>
      rw [hrun] at hact
      exact hfailed f t hact

/-- What follows may rest on a fact that does not depend on the state. -/
theorem given {act : Acts σ α} {fact : Prop} {after : α → σ → Prop}
    (h : fact → Meets act before after failed) :
    Meets act (fun s => fact ∧ before s) after failed :=
  fun scope s hs => h hs.1 scope s hs.2

/-- A fact that does not depend on the state holds as well after an answer. -/
theorem beside {act : Acts σ α} {fact : Prop} {after : α → σ → Prop}
    (h : Meets act before after failed) :
    Meets act (fun s => before s ∧ fact) (fun a s => after a s ∧ fact) failed := by
  intro scope s hs
  have hact := h scope s hs.1
  cases hrun : act scope s with
  | ok a t =>
      rw [hrun] at hact
      exact ⟨hact, hs.2⟩
  | error f t =>
      rw [hrun] at hact
      exact hact

/-- What holds at the end of every run holds both after answers and after faults. -/
theorem of_finalState {act : Acts σ α} {kept : σ → Prop}
    (h : ∀ scope s, before s → kept (SalientGraph.finalState (act scope s))) :
    Meets act before (fun _ => kept) (fun _ => kept) := by
  intro scope s hs
  have hact := h scope s hs
  cases hrun : act scope s with
  | ok a t =>
      rw [hrun] at hact
      exact hact
  | error f t =>
      rw [hrun] at hact
      exact hact

/-- What holds both after answers and after faults holds at the end of every run. -/
theorem finalState {act : Acts σ α} {kept : σ → Prop}
    (h : Meets act before (fun _ => kept) (fun _ => kept)) (scope : Scope) {s : σ}
    (hs : before s) : kept (SalientGraph.finalState (act scope s)) := by
  have hact := h scope s hs
  cases hrun : act scope s with
  | ok a t =>
      rw [hrun] at hact
      exact hact
  | error f t =>
      rw [hrun] at hact
      exact hact

/-- An outcome is an answer, whatever it is. -/
theorem attempt {act : Acts σ α} {kept : σ → Prop}
    (h : Meets act before (fun _ => kept) (fun _ => kept)) :
    Meets (SalientGraph.attempt act) before (fun _ => kept) failed := by
  intro scope s hs
  rw [attempt_apply]
  exact h.finalState scope hs

end Meets
end SalientGraph
