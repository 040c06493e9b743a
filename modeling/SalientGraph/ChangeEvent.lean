import SalientGraph.Edge
import SalientGraph.Tenant

/-!
# Change events

What subscribers are told after a change of salience has been committed. An event
carries identifiers only; whoever needs more reads it.
-/

namespace SalientGraph

inductive ChangeEvent where
  | nodeBoosted (tenant : Tenant) (id : String)
  | edgeBoosted (tenant : Tenant) (key : EdgeKey)
  | nodeSuperseded (tenant : Tenant) (old new : String)
  | nodesAccessed (tenant : Tenant) (ids : List String)
  | salienceRecalculated (tenant : Tenant) (updated : Nat)
deriving DecidableEq, Inhabited

namespace ChangeEvent

/-- The tenant in whose graph the change was made. -/
def tenant : ChangeEvent → Tenant
  | nodeBoosted t _ => t
  | edgeBoosted t _ => t
  | nodeSuperseded t _ _ => t
  | nodesAccessed t _ => t
  | salienceRecalculated t _ => t

end ChangeEvent
end SalientGraph
