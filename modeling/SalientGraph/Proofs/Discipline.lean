import SalientGraph.Fault
import SalientGraph.Scope

/-!
# Disciplines

What can be asked of everything that acts on a state within a scope, and then holds of
whatever is put together from it: that states which are alike to somebody lead to the
same answer or fault and to states alike again, and that what is none of the action's
business stays as it was. The states may be worlds or sessions.
-/

namespace SalientGraph

/-- What acts on a state within a scope, and may fail. -/
abbrev Acts (σ α : Type) : Type :=
  ReaderT Scope (EStateM Fault σ) α

/-- The state that a run ends in, with an answer or with a fault. -/
def finalState {σ α : Type} : EStateM.Result Fault σ α → σ
  | .ok _ s => s
  | .error _ s => s

/-- The fault that a run fails with, if it fails. -/
def fault? {σ α : Type} : EStateM.Result Fault σ α → Option Fault
  | .ok _ _ => none
  | .error f _ => some f

theorem eq_error_of_fault? {σ α : Type} {r : EStateM.Result Fault σ α} {f : Fault}
    (h : fault? r = some f) : r = .error f (finalState r) := by
  cases r with
  | ok a s => contradiction
  | error g s => rw [Option.some.inj h, finalState]

/-- The answer that a run gives, if it gives one. -/
def answer? {σ α : Type} : EStateM.Result Fault σ α → Option α
  | .ok a _ => some a
  | .error _ _ => none

theorem exists_ok_of_map_answer? {σ α β : Type} {r : EStateM.Result Fault σ α} {f : α → β} {b : β}
    (h : (answer? r).map f = some b) : ∃ a, r = .ok a (finalState r) ∧ f a = b := by
  cases r with
  | ok a s => exact ⟨a, rfl, Option.some.inj h⟩
  | error g s => contradiction

/-- What a run comes to, an answer or a fault. -/
def outcomeOf {σ α : Type} : EStateM.Result Fault σ α → Except Fault α
  | .ok a _ => .ok a
  | .error f _ => .error f

theorem exists_ok_of_outcomeOf {σ α : Type} {r : EStateM.Result Fault σ α} {a : α}
    (h : outcomeOf r = .ok a) : ∃ s, r = .ok a s := by
  cases r with
  | ok b s =>
      cases h
      exact ⟨s, rfl⟩
  | error f s => contradiction

/-- The outcome of an action, which itself does not fail. -/
def attempt {σ α : Type} (act : Acts σ α) : Acts σ (Except Fault α) := fun scope s =>
  match act scope s with
  | .ok a s => .ok (.ok a) s
  | .error f s => .ok (.error f) s

theorem attempt_apply {σ α : Type} (act : Acts σ α) (scope : Scope) (s : σ) :
    attempt act scope s = .ok (outcomeOf (act scope s)) (finalState (act scope s)) := by
  unfold attempt
  cases act scope s <;> rfl

/-- After an answer, a chain goes on with what follows. -/
theorem bind_apply_of_ok {σ α β : Type} {act : Acts σ α} {next : α → Acts σ β} {scope : Scope}
    {s t : σ} {a : α} (h : act scope s = .ok a t) : (act >>= next) scope s = next a scope t := by
  show EStateM.bind (act scope) (fun a => next a scope) s = next a scope t
  unfold EStateM.bind
  rw [h]

/-- After a fault, nothing of a chain follows. -/
theorem bind_apply_of_error {σ α β : Type} {act : Acts σ α} {next : α → Acts σ β} {scope : Scope}
    {s t : σ} {f : Fault} (h : act scope s = .error f t) : (act >>= next) scope s = .error f t := by
  show EStateM.bind (act scope) (fun a => next a scope) s = .error f t
  unfold EStateM.bind
  rw [h]

/-- An answer at the end of a chain is preceded by an answer of its first link. -/
theorem exists_of_bind_eq_ok {σ α β : Type} {act : Acts σ α} {next : α → Acts σ β} {scope : Scope}
    {s t : σ} {b : β} (h : (act >>= next) scope s = .ok b t) :
    ∃ a u, act scope s = .ok a u ∧ next a scope u = .ok b t := by
  have hrun : EStateM.bind (act scope) (fun a => next a scope) s = .ok b t := h
  unfold EStateM.bind at hrun
  cases hact : act scope s with
  | ok a u =>
      rw [hact] at hrun
      exact ⟨a, u, rfl, hrun⟩
  | error f u =>
      rw [hact] at hrun
      contradiction

/-- What is asked of actions: which states are alike, under each of several readings of the word,
and which state may come of which. -/
structure Discipline (ι σ : Type) where
  alike : ι → σ → σ → Prop
  frame : σ → σ → Prop
  refl : ∀ s, frame s s
  trans : ∀ {s t u}, frame s t → frame t u → frame s u

namespace Discipline

variable {ι σ α β : Type}

/-- The discipline of keeping to a frame, which asks nothing about runs from different states. -/
def ofFrame (frame : σ → σ → Prop) (refl : ∀ s, frame s s)
    (trans : ∀ {s t u}, frame s t → frame t u → frame s u) : Discipline Empty σ where
  alike i _ _ := i.elim
  frame := frame
  refl := refl
  trans := trans

/-- Two runs have answers that are related or the same fault, and end in states alike. -/
def Agree (d : Discipline ι σ) (i : ι) (related : α → β → Prop) :
    EStateM.Result Fault σ α → EStateM.Result Fault σ β → Prop
  | .ok a s, .ok b t => related a b ∧ d.alike i s t
  | .error f s, .error g t => f = g ∧ d.alike i s t
  | _, _ => False

/-- The action has the same outcome in states alike, and keeps to the frame. -/
structure Obeys (d : Discipline ι σ) (act : Acts σ α) : Prop where
  agree : ∀ (i : ι) (scope : Scope) {s t : σ}, d.alike i s t →
    d.Agree i Eq (act scope s) (act scope t)
  keeps : ∀ (scope : Scope) (s : σ), d.frame s (finalState (act scope s))

variable {d : Discipline ι σ}

/-- To obey the discipline of a frame is to keep to the frame. -/
theorem Obeys.of_keeps {frame : σ → σ → Prop} {refl : ∀ s, frame s s}
    {trans : ∀ {s t u}, frame s t → frame t u → frame s u} {act : Acts σ α}
    (h : ∀ scope s, frame s (finalState (act scope s))) : (ofFrame frame refl trans).Obeys act where
  agree i := i.elim
  keeps := h

/-- Runs that agree are both answered or both fail. -/
@[elab_as_elim]
theorem Agree.elim {i : ι} {related : α → β → Prop} {r : EStateM.Result Fault σ α}
    {r' : EStateM.Result Fault σ β}
    {motive : EStateM.Result Fault σ α → EStateM.Result Fault σ β → Prop}
    (h : d.Agree i related r r')
    (ok : ∀ a b s t, related a b → d.alike i s t → motive (.ok a s) (.ok b t))
    (error : ∀ f s t, d.alike i s t → motive (.error f s) (.error f t)) : motive r r' := by
  cases r with
  | ok a s =>
      cases r' with
      | ok b t => exact ok a b s t h.1 h.2
      | error f t => exact False.elim h
  | error f s =>
      cases r' with
      | ok b t => exact False.elim h
      | error g t =>
          obtain ⟨rfl, hst⟩ := h
          exact error f s t hst

/-- Runs that agree go on in agreement if what follows does. -/
theorem Agree.bind {α' β' : Type} {i : ι} {related : α → α' → Prop}
    {related' : β → β' → Prop} {act : Acts σ α} {act' : Acts σ α'} {next : α → Acts σ β}
    {next' : α' → Acts σ β'} {scope : Scope} {s t : σ}
    (h : d.Agree i related (act scope s) (act' scope t))
    (hnext : ∀ {a a' s t}, related a a' → d.alike i s t →
      d.Agree i related' (next a scope s) (next' a' scope t)) :
    d.Agree i related' ((act >>= next) scope s) ((act' >>= next') scope t) := by
  show d.Agree i related' (EStateM.bind (act scope) (fun a => next a scope) s)
    (EStateM.bind (act' scope) (fun a => next' a scope) t)
  unfold EStateM.bind
  refine Agree.elim h ?_ ?_
  · intro a a' s t ha hst
    exact hnext ha hst
  · intro f s t hst
    exact ⟨rfl, hst⟩

/-- A run keeps to the frame if its parts do. -/
theorem keeps_bind {act : Acts σ α} {next : α → Acts σ β} {scope : Scope} {s : σ}
    (h : d.frame s (finalState (act scope s)))
    (hnext : ∀ a t, act scope s = .ok a t → d.frame t (finalState (next a scope t))) :
    d.frame s (finalState ((act >>= next) scope s)) := by
  show d.frame s (finalState (EStateM.bind (act scope) (fun a => next a scope) s))
  unfold EStateM.bind
  cases hs : act scope s with
  | ok a t =>
      rw [hs] at h
      exact d.trans h (hnext a t hs)
  | error f t =>
      rw [hs] at h
      exact h

namespace Obeys

theorem pure (a : α) : d.Obeys (Pure.pure a : Acts σ α) where
  agree _ _ {_ _} h := ⟨rfl, h⟩
  keeps _ s := d.refl s

theorem throw (f : Fault) : d.Obeys (MonadExcept.throw f : Acts σ α) where
  agree _ _ {_ _} h := ⟨rfl, h⟩
  keeps _ s := d.refl s

theorem bind {act : Acts σ α} {next : α → Acts σ β} (h : d.Obeys act)
    (hnext : ∀ a, d.Obeys (next a)) : d.Obeys (act >>= next) where
  agree i scope {s t} hst := by
    refine (h.agree i scope hst).bind ?_
    rintro a _ s t rfl hst
    exact (hnext a).agree i scope hst
  keeps scope s := keeps_bind (h.keeps scope s) fun a t _ => (hnext a).keeps scope t

theorem attempt {act : Acts σ α} (h : d.Obeys act) : d.Obeys (attempt act) where
  agree i scope {s t} hst := by
    unfold SalientGraph.attempt
    refine Agree.elim (h.agree i scope hst) ?_ ?_
    · rintro a _ s t rfl hst
      exact ⟨rfl, hst⟩
    · intro f s t hst
      exact ⟨rfl, hst⟩
  keeps scope s := by
    have hrun := h.keeps scope s
    unfold SalientGraph.attempt
    cases hs : act scope s with
    | ok a s' =>
        rw [hs] at hrun
        exact hrun
    | error f s' =>
        rw [hs] at hrun
        exact hrun

/-- What is done to each element of a list obeys if it does so for any. -/
theorem mapM {f : α → Acts σ β} (h : ∀ a, d.Obeys (f a)) (xs : List α) :
    d.Obeys (xs.mapM f) := by
  induction xs with
  | nil => exact pure []
  | cons x xs ih =>
      rw [List.mapM_cons]
      exact (h x).bind fun b => ih.bind fun bs => pure (b :: bs)

end Obeys

end Discipline
end SalientGraph
