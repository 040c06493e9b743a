import Std.Data.ExtTreeMap
import SalientGraph.Traversal.Expansion

/-!
# Path search

A search for a path with the fewest edges, hop by hop from its start. Every visited
node but the start has a parent, the node from which it was discovered; once the
target is discovered, the parents lead back from it.
-/

namespace SalientGraph

/-- A search under way. -/
structure PathSearch where
  target : String
  visited : Ids
  parents : Std.ExtTreeMap String String compare
  cap : Nat
  truncated : Bool

/-- What one hop has come to: the nodes that it has added, and whether the target is among them. -/
structure Progress where
  added : List String
  found : Bool
  search : PathSearch

namespace PathSearch

/-- Only the start is visited. -/
def ofStart (start target : String) (cap : Nat) : PathSearch :=
  ⟨target, Ids.ofList [start], ∅, cap, false⟩

/-- The search with one more node, discovered from another one. -/
def discover (s : PathSearch) (origin id : String) : PathSearch :=
  { s with visited := s.visited.insert id, parents := s.parents.insert id origin }

/-- Follows edges, each given from its one end to its other, out of the current frontier. The hop
ends early when the target is found or the cap keeps a node out. -/
def follow (s : PathSearch) (current : Ids) : List (String × String) → Progress
  | [] => ⟨[], false, s⟩
  | (origin, id) :: rest =>
    if !current.contains origin || s.visited.contains id then s.follow current rest
    else if s.cap ≤ s.visited.size then ⟨[], false, { s with truncated := true }⟩
    else if id = s.target then ⟨[], true, s.discover origin id⟩
    else
      let more := (s.discover origin id).follow current rest
      { more with added := id :: more.added }

/-- The search after one more hop, which has found the given ends of edges. -/
def expand (s : PathSearch) (frontier : List String) (pairs : List (String × String)) : Progress :=
  s.follow (Ids.ofList frontier) (pairs.flatMap fun pair => [pair, (pair.2, pair.1)])

/-- Extends a path at its front by at most `steps` parents, as far as its start. -/
def traceBack (s : PathSearch) (start : String) : Nat → String → List String → List String
  | 0, _, path => path
  | steps + 1, id, path =>
    if id = start then path
    else
      match s.parents[id]? with
      | some parent => s.traceBack start steps parent (parent :: path)
      | none => path

/-- The path from the start to the target. There are no more steps than parents. -/
def path (s : PathSearch) (start : String) : List String :=
  s.traceBack start s.parents.size s.target [s.target]

end PathSearch
end SalientGraph
