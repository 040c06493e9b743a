import Std.Data.ExtTreeSet

/-!
# Expansion

How a traversal grows: hop by hop, from the nodes that the last hop has added. Edges
are followed in both directions. The number of nodes visited is capped, and so is the
number of edges looked at in one hop; when a cap may have hidden something, the
expansion is truncated.
-/

namespace SalientGraph

/-- A set of identifiers. -/
abbrev Ids : Type :=
  Std.ExtTreeSet String compare

namespace Ids

def ofList (ids : List String) : Ids :=
  Std.ExtTreeSet.ofList ids compare

end Ids

/-- Whether one direction of a hop has come back full, so that edges of it may be missing. -/
def saturated (frontier : List String) (pairs : List (String × String)) (limit : Nat) : Bool :=
  let inside := Ids.ofList frontier
  limit ≤ pairs.countP (inside.contains ·.1) || limit ≤ pairs.countP (inside.contains ·.2)

/-- What came of a visit to some nodes: the new ones in order of mention, all visited ones, and
whether the cap has kept one out. -/
structure Visit where
  added : List String
  visited : Ids
  full : Bool

/-- Visits nodes that are not visited yet, until `cap` of them are. -/
def visit (cap : Nat) (visited : Ids) : List String → Visit
  | [] => ⟨[], visited, false⟩
  | id :: rest =>
    if visited.contains id then visit cap visited rest
    else if cap ≤ visited.size then ⟨[], visited, true⟩
    else
      let more := visit cap (visited.insert id) rest
      { more with added := id :: more.added }

/-- A traversal under way. -/
structure Expansion where
  visited : Ids
  /-- The visited identifiers in order of their discovery. -/
  order : List String
  /-- The identifiers that the last hop has added. -/
  frontier : List String
  truncated : Bool
  /-- The cap on visited nodes has kept one out. -/
  full : Bool

namespace Expansion

/-- Only the root is visited. -/
def ofRoot (root : String) : Expansion :=
  ⟨Ids.ofList [root], [root], [root], false, false⟩

/-- The expansion after one more hop, which has found the given ends of edges. -/
def grow (x : Expansion) (cap limit : Nat) (pairs : List (String × String)) : Expansion :=
  let v := visit cap x.visited (pairs.flatMap fun pair => [pair.1, pair.2])
  { visited := v.visited
    order := x.order ++ v.added
    frontier := v.added
    truncated := x.truncated || saturated x.frontier pairs limit || v.full
    full := v.full }

end Expansion
end SalientGraph
