import SalientGraph.Scope

/-!
# Families of scopes

Scopes that belong together: to cancel one of them cancels its descendants as well.
A member is known by its own number and those of its ancestors, so a cancellation
concerns it if it is one of these that was cancelled.
-/

namespace SalientGraph
namespace Scope

/-- A member of a family of scopes. -/
structure Member where
  number : Nat
  ancestors : List Nat
  deadline : Option Nat
deriving DecidableEq, Inhabited

/-- A family of scopes: how many numbers are taken, and who was cancelled when. -/
structure Family where
  taken : Nat
  cancellations : List (Nat × Nat)
deriving DecidableEq, Inhabited

namespace Member

/-- The numbers by which the member may be cancelled. -/
def lineage (m : Member) : List Nat :=
  m.number :: m.ancestors

/-- The member with a deadline of its own choice. -/
def withDeadline (m : Member) (deadline : Nat) : Member :=
  { m with deadline := some deadline }

/-- The member cancelled together with another one. -/
def boundTo (m other : Member) : Member :=
  { m with number := other.number, ancestors := other.ancestors }

end Member

namespace Family

/-- Nobody yet. -/
def empty : Family :=
  ⟨0, []⟩

/-- A new member without ancestors and without a deadline. -/
def root (f : Family) : Member × Family :=
  (⟨f.taken, [], none⟩, { f with taken := f.taken + 1 })

/-- A new member below another one, with `timeout` milliseconds of its own. -/
def child (f : Family) (m : Member) (now timeout : Nat) : Member × Family :=
  (⟨f.taken, m.lineage, some (earlier m.deadline (now + timeout))⟩, { f with taken := f.taken + 1 })

/-- Cancels a member and, with it, its descendants. -/
def cancel (f : Family) (m : Member) (now : Nat) : Family :=
  { f with cancellations := (m.number, now) :: f.cancellations }

/-- When a member was first cancelled, by itself or with an ancestor. -/
def cancelledAt? (f : Family) (m : Member) : Option Nat :=
  ((f.cancellations.filter fun c => m.lineage.contains c.1).map (·.2)).min?

/-- The scope of a member. -/
def scope (f : Family) (m : Member) : Scope :=
  ⟨m.deadline, f.cancelledAt? m⟩

end Family
end Scope
end SalientGraph
