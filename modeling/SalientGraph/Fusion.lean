import SalientGraph.Ranking

/-!
# Reciprocal rank fusion

Several ranked lists are made into one. An entry contributes `1 / (60 + rank)` from
every position it holds in any list, with ranks counted from 1; the scores it came
with do not matter, so that lists scored on different scales can be fused.
-/

namespace SalientGraph
namespace Fusion

/-- Damps the difference between the first ranks. -/
def damping : Float := 60.0

/-- What a position contributes to the fused score. -/
def contribution (rank : Nat) : Float :=
  1.0 / (damping + (UInt64.ofNat rank).toFloat)

/-- Adds one position to the fused entries: to the entry of its node, or as a new entry. -/
def add (hit : ScoredNode) (rank : Nat) : List ScoredNode → List ScoredNode
  | [] => [⟨hit.node, contribution rank⟩]
  | entry :: rest =>
    if entry.id = hit.id then { entry with score := entry.score + contribution rank } :: rest
    else entry :: add hit rank rest

/-- Every position of the lists in order, with its rank. -/
def positions (lists : List (List ScoredNode)) : List (ScoredNode × Nat) :=
  lists.flatMap fun hits => hits.zipIdx 1

/-- The fused entries in order of first mention. -/
def entries (lists : List (List ScoredNode)) : List ScoredNode :=
  (positions lists).foldl (fun fused position => add position.1 position.2 fused) []

/-- The fused list: the `limit` entries with the highest scores, ties by identifier. -/
def fuse (lists : List (List ScoredNode)) (limit : Nat) : List ScoredNode :=
  best ScoredNode.order limit (entries lists)

end Fusion
end SalientGraph
