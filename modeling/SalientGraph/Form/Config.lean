import SalientGraph.Config
import SalientGraph.Form.Reading

/-!
# JSON form of a configuration

A configuration is written in full and read with defaults for whatever is missing.
Reading the sections checks no bounds; `Config.parse` reads and validates.
-/

namespace SalientGraph
namespace Form

def traversalNames : List String :=
  ["default_neighbor_limit", "max_neighbor_limit", "max_node_fetch", "max_hops",
    "per_hop_edge_limit", "max_visited", "max_subgraph_edges", "path_max_hops", "path_max_visited",
    "path_frontier_cap", "context_max_hops"]

def traversalLimits : Reading TraversalLimits := fun levels d => do
  let fs ← fields traversalNames true levels d
  let base : TraversalLimits := {}
  let defaultNeighborLimit ← fs.orElse "default_neighbor_limit" base.defaultNeighborLimit word
  let maxNeighborLimit ← fs.orElse "max_neighbor_limit" base.maxNeighborLimit word
  let maxNodeFetch ← fs.orElse "max_node_fetch" base.maxNodeFetch word
  let maxHops ← fs.orElse "max_hops" base.maxHops word
  let perHopEdgeLimit ← fs.orElse "per_hop_edge_limit" base.perHopEdgeLimit word
  let maxVisited ← fs.orElse "max_visited" base.maxVisited word
  let maxSubgraphEdges ← fs.orElse "max_subgraph_edges" base.maxSubgraphEdges word
  let pathMaxHops ← fs.orElse "path_max_hops" base.pathMaxHops word
  let pathMaxVisited ← fs.orElse "path_max_visited" base.pathMaxVisited word
  let pathFrontierCap ← fs.orElse "path_frontier_cap" base.pathFrontierCap word
  let contextMaxHops ← fs.orElse "context_max_hops" base.contextMaxHops word
  some ⟨defaultNeighborLimit, maxNeighborLimit, maxNodeFetch, maxHops, perHopEdgeLimit, maxVisited,
    maxSubgraphEdges, pathMaxHops, pathMaxVisited, pathFrontierCap, contextMaxHops⟩

def searchLimits : Reading SearchLimits := fun levels d => do
  let fs ← fields ["default_limit", "max_limit"] true levels d
  let base : SearchLimits := {}
  let defaultLimit ← fs.orElse "default_limit" base.defaultLimit word
  let maxLimit ← fs.orElse "max_limit" base.maxLimit word
  some ⟨defaultLimit, maxLimit⟩

def sweepConfig : Reading SweepConfig := fun levels d => do
  let fs ← fields ["batch_size", "sweep_deadline_secs"] true levels d
  let base : SweepConfig := {}
  let batchSize ← fs.orElse "batch_size" base.batchSize word
  let deadlineSeconds ← fs.orElse "sweep_deadline_secs" base.deadlineSeconds word
  some ⟨batchSize, deadlineSeconds⟩

def guardConfig : Reading GuardConfig := fun levels d => do
  let fs ← fields ["capacity", "idle_ttl_secs", "sweep_interval_secs"] true levels d
  let base : GuardConfig := {}
  let capacity ← fs.orElse "capacity" base.capacity word
  let idleSeconds ← fs.orElse "idle_ttl_secs" base.idleSeconds word
  let clearingSeconds ← fs.orElse "sweep_interval_secs" base.clearingSeconds word
  some ⟨capacity, idleSeconds, clearingSeconds⟩

def config : Reading Config := fun levels d => do
  let fs ← fields ["traversal", "search", "salience", "guard"] true levels d
  let traversal ← fs.orElse "traversal" {} traversalLimits
  let search ← fs.orElse "search" {} searchLimits
  let sweep ← fs.orElse "salience" {} sweepConfig
  let guard ← fs.orElse "guard" {} guardConfig
  some ⟨traversal, search, sweep, guard⟩

def ofTraversalLimits (l : TraversalLimits) : Json :=
  Json.ofMembers
    [ ("default_neighbor_limit", Json.nat l.defaultNeighborLimit),
      ("max_neighbor_limit", Json.nat l.maxNeighborLimit),
      ("max_node_fetch", Json.nat l.maxNodeFetch),
      ("max_hops", Json.nat l.maxHops),
      ("per_hop_edge_limit", Json.nat l.perHopEdgeLimit),
      ("max_visited", Json.nat l.maxVisited),
      ("max_subgraph_edges", Json.nat l.maxSubgraphEdges),
      ("path_max_hops", Json.nat l.pathMaxHops),
      ("path_max_visited", Json.nat l.pathMaxVisited),
      ("path_frontier_cap", Json.nat l.pathFrontierCap),
      ("context_max_hops", Json.nat l.contextMaxHops) ]

def ofSearchLimits (l : SearchLimits) : Json :=
  Json.ofMembers [("default_limit", Json.nat l.defaultLimit), ("max_limit", Json.nat l.maxLimit)]

def ofSweepConfig (c : SweepConfig) : Json :=
  Json.ofMembers
    [("batch_size", Json.nat c.batchSize), ("sweep_deadline_secs", Json.nat c.deadlineSeconds)]

def ofGuardConfig (c : GuardConfig) : Json :=
  Json.ofMembers
    [ ("capacity", Json.nat c.capacity),
      ("idle_ttl_secs", Json.nat c.idleSeconds),
      ("sweep_interval_secs", Json.nat c.clearingSeconds) ]

def ofConfig (c : Config) : Json :=
  Json.ofMembers
    [ ("traversal", ofTraversalLimits c.traversal),
      ("search", ofSearchLimits c.search),
      ("salience", ofSweepConfig c.sweep),
      ("guard", ofGuardConfig c.guard) ]

end Form

/-- The valid configuration that a text spells out. -/
def Config.parse (s : String) : Except Fault Config := do
  let c ← Form.parse Form.config s
  c.validate
  pure c

end SalientGraph
