import Std.Data.ExtTreeMap

/-!
# Tenants

Whose graph it is. Nothing is shared across tenants: neither nodes nor edges, keys
nor locks.
-/

namespace SalientGraph

/-- A tenant, known by name. -/
structure Tenant where
  name : String
deriving DecidableEq, Inhabited

namespace Tenant

/-- Tenants are ordered by name. -/
def order (a b : Tenant) : Ordering :=
  compare a.name b.name

instance : Std.TransCmp order :=
  inferInstanceAs (Std.TransCmp (compareOn Tenant.name))

instance : Std.LawfulEqCmp order where
  eq_of_compare {a b} h := by
    simp only [order, Std.LawfulEqOrd.compare_eq_iff_eq] at h
    cases a
    cases b
    simp_all

end Tenant

end SalientGraph
