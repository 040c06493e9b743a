import SalientGraph.Fault

/-!
# Scopes

How long a request may go on: until its deadline, or until its caller cancels it.
A scope is consulted before each step and while waiting. Times are milliseconds of a
clock that never runs backwards.
-/

namespace SalientGraph

structure Scope where
  deadline : Option Nat
  cancelledAt : Option Nat
deriving DecidableEq, Inhabited

namespace Scope

/-- A scope without a deadline that nobody cancels. -/
def unbounded : Scope :=
  ⟨none, none⟩

/-- A scope with `timeout` milliseconds left. -/
def ofTimeout (now timeout : Nat) : Scope :=
  ⟨some (now + timeout), none⟩

/-- The earlier of a deadline, if there is one, and another. -/
def earlier (deadline : Option Nat) (own : Nat) : Nat :=
  match deadline with
  | some d => min d own
  | none => own

/-- A part of a scope with `timeout` milliseconds of its own, ending with the whole at the latest. -/
def child (s : Scope) (now timeout : Nat) : Scope :=
  { s with deadline := some (earlier s.deadline (now + timeout)) }

/-- Refuses to go on in a scope that is over. Whether it is cancelled counts first. -/
def check (s : Scope) (now : Nat) : Except Fault Unit :=
  if s.cancelledAt.any (· ≤ now) then .error .cancelled
  else if s.deadline.any (· ≤ now) then .error .deadlineExceeded
  else .ok ()

/-- Waits `duration` milliseconds, or until the scope is over: what came of it, and when. A wait
that takes no time is not interrupted. One that ends just as the scope does is, and of a deadline
and a cancellation at the same time the cancellation counts. -/
def wait (s : Scope) (now duration : Nat) : Except Fault Unit × Nat :=
  if duration = 0 then (.ok (), now)
  else
    let finish := now + duration
    let late := s.deadline.filter (· ≤ finish)
    match s.cancelledAt.filter (· ≤ late.getD finish) with
    | some c => (.error .cancelled, max now c)
    | none =>
      match late with
      | some d => (.error .deadlineExceeded, max now d)
      | none => (.ok (), finish)

/-- Runs what takes `duration` milliseconds to come to an outcome: what came of it, and when. It is
not started in a scope that is over, and given up when the scope is over before. -/
def run {α : Type} (s : Scope) (now duration : Nat) (outcome : Except Fault α) :
    Except Fault α × Nat :=
  match s.check now with
  | .error f => (.error f, now)
  | .ok () =>
    let (waited, finish) := s.wait now duration
    (waited.bind fun () => outcome, finish)

@[simp] theorem check_unbounded (now : Nat) : unbounded.check now = .ok () := rfl

@[simp] theorem wait_unbounded (now duration : Nat) :
    unbounded.wait now duration = (.ok (), now + duration) := by
  by_cases h : duration = 0 <;> simp [wait, unbounded, h]

end Scope
end SalientGraph
