import SalientGraph.Fault

/-!
# Configuration

Every bound and period that the engine obeys. A configuration is valid when no
bound makes an operation useless or unbounded; `Config.invalid?` names the first
value that does.
-/

namespace SalientGraph

/-- Bounds on the cost of a single traversal. -/
structure TraversalLimits where
  /-- Edges per direction of a neighborhood when the request leaves the number open. -/
  defaultNeighborLimit : Nat := 100
  /-- Edges per direction of a neighborhood at most. -/
  maxNeighborLimit : Nat := 1000
  /-- Nodes fetched at once at most. -/
  maxNodeFetch : Nat := 1000
  /-- Hops of a traversal at most. -/
  maxHops : Nat := 5
  /-- Edges fetched per direction and hop at most. -/
  perHopEdgeLimit : Nat := 1000
  /-- Nodes visited by a traversal at most. -/
  maxVisited : Nat := 500
  /-- Edges of the subgraph that a traversal gives at most. -/
  maxSubgraphEdges : Nat := 5000
  /-- Hops of a path search at most. -/
  pathMaxHops : Nat := 10
  /-- Nodes visited by a path search at most. -/
  pathMaxVisited : Nat := 10000
  /-- Nodes from which a path search goes on at most; a larger frontier is sampled. -/
  pathFrontierCap : Nat := 500
  /-- Hops of a context at most. -/
  contextMaxHops : Nat := 2
deriving DecidableEq, Inhabited

structure SearchLimits where
  /-- Hits when the request leaves the number open. -/
  defaultLimit : Nat := 20
  /-- Hits at most. -/
  maxLimit : Nat := 100
deriving DecidableEq, Inhabited

structure SweepConfig where
  /-- Nodes rescored in one transaction. -/
  batchSize : Nat := 1000
  /-- Seconds that one sweep over a tenant may take. -/
  deadlineSeconds : Nat := 300
deriving DecidableEq, Inhabited

structure GuardConfig where
  /-- Tenants that are kept track of, unless more of them are being swept at once. -/
  capacity : Nat := 1000
  /-- Seconds after which an unused slot may go. -/
  idleSeconds : Nat := 1800
  /-- Seconds between two clearings of unused slots. -/
  clearingSeconds : Nat := 300
deriving DecidableEq, Inhabited

structure Config where
  traversal : TraversalLimits := {}
  search : SearchLimits := {}
  sweep : SweepConfig := {}
  guard : GuardConfig := {}
deriving DecidableEq, Inhabited

/-- The number of edges per direction for a request of `requested`, where 0 leaves it open. -/
def TraversalLimits.neighborLimit (l : TraversalLimits) (requested : Nat) : Nat :=
  if requested = 0 then l.defaultNeighborLimit else min requested l.maxNeighborLimit

/-- The number of hits for a request of `requested`, where 0 leaves it open. -/
def SearchLimits.limit (l : SearchLimits) (requested : Nat) : Nat :=
  if requested = 0 then l.defaultLimit else min requested l.maxLimit

namespace Config

/-- What must hold of a configuration, with the name of the value that is at fault otherwise. -/
def requirements (c : Config) : List (String × Bool) :=
  let t := c.traversal
  [ ("traversal.default_neighbor_limit", 0 < t.defaultNeighborLimit),
    ("traversal.max_neighbor_limit", t.defaultNeighborLimit ≤ t.maxNeighborLimit),
    ("traversal.max_node_fetch", 0 < t.maxNodeFetch),
    ("traversal.per_hop_edge_limit", 0 < t.perHopEdgeLimit),
    ("traversal.max_visited", 0 < t.maxVisited),
    ("traversal.path_frontier_cap", 0 < t.pathFrontierCap),
    ("traversal.path_max_visited", 0 < t.pathMaxVisited),
    ("search.max_limit", c.search.defaultLimit ≤ c.search.maxLimit),
    ("search.default_limit", 0 < c.search.defaultLimit),
    ("salience.batch_size", 0 < c.sweep.batchSize),
    ("guard.capacity", 0 < c.guard.capacity),
    ("guard.sweep_interval_secs", 0 < c.guard.clearingSeconds) ]

/-- The name of the first value that is at fault. -/
def invalid? (c : Config) : Option String :=
  (c.requirements.find? fun requirement => !requirement.2).map (·.1)

/-- No value is at fault. -/
def IsValid (c : Config) : Prop :=
  ∀ requirement ∈ c.requirements, requirement.2 = true

instance (c : Config) : Decidable c.IsValid :=
  inferInstanceAs (Decidable (∀ requirement ∈ c.requirements, requirement.2 = true))

/-- Refuses a configuration with a value at fault. -/
def validate (c : Config) : Except Fault Unit :=
  match c.invalid? with
  | some name => .error (.invalidArgument ("invalid config value: " ++ name))
  | none => .ok ()

theorem validate_eq_ok_iff (c : Config) : c.validate = .ok () ↔ c.IsValid := by
  unfold validate invalid? IsValid
  cases h : c.requirements.find? fun requirement => !requirement.2 with
  | none => simpa using List.find?_eq_none.1 h
  | some requirement =>
    have hm := List.mem_of_find?_eq_some h
    have hf := List.find?_some h
    simp only [Option.map_some, reduceCtorEq, false_iff]
    intro hall
    simp [hall requirement hm] at hf

end Config

/-- The time a sweep may take in milliseconds. -/
def SweepConfig.deadlineMillis (c : SweepConfig) : Nat :=
  c.deadlineSeconds * 1000

/-- The time after which an unused slot may go in milliseconds. -/
def GuardConfig.idleMillis (c : GuardConfig) : Nat :=
  c.idleSeconds * 1000

/-- The time between two clearings in milliseconds. -/
def GuardConfig.clearingMillis (c : GuardConfig) : Nat :=
  c.clearingSeconds * 1000

end SalientGraph
