import SalientGraph.Double
import SalientGraph.Timestamp.Basic

/-!
# Relevance and its score

What a node or an edge remembers about its use, and the salience that follows from
it. The score grows with the logarithm of the accesses, decays linearly over half a
year without one, and is raised for a boost by a user and lowered for an entry that
has been superseded. Its floor keeps every entry rankable.
-/

namespace SalientGraph

/-- The score fields of a node or an edge. `salience` is the score as it was last computed, at
`updatedAt`. -/
structure Relevance where
  accessCount : UInt64
  lastAccessed : Option Timestamp
  salience : Double
  supersededBy : Option String
  userBoosted : Bool
  createdAt : Timestamp
  updatedAt : Timestamp
deriving Inhabited

namespace Relevance

/-- Days without an access after which nothing is left of the recency. -/
def recencyWindowDays : Float := 180.0

/-- Scores closer to each other than this are the same score. -/
def changeEpsilon : Float := 1e-6

def floor : Float := 0.1

/-- A whole number as a double. -/
def floatOfInt (n : Int) : Float :=
  let magnitude := (UInt64.ofNat n.natAbs).toFloat
  if n < 0 then -magnitude else magnitude

/-- Linear decay from 1, just touched, to 0. A touch in the future counts as one just now. -/
def recency (touched now : Timestamp) : Float :=
  let days := floatOfInt (now.millisSince touched) / 1000.0 / 86400.0
  let left := 1.0 - days / recencyWindowDays
  if left < 0.0 then 0.0 else if 1.0 < left then 1.0 else left

/-- The last access, or the creation of an entry that was never accessed. -/
def touched (r : Relevance) : Timestamp :=
  r.lastAccessed.getD r.createdAt

def isSuperseded (r : Relevance) : Bool :=
  r.supersededBy.isSome

/-- The salience at a point in time. -/
def score (r : Relevance) (now : Timestamp) : Float :=
  let access := 0.3 * (r.accessCount.toFloat + 1.0).log2
  let recent := 0.5 * recency r.touched now
  let boost := if r.userBoosted then 2.0 else 0.0
  let penalty := if r.isSuperseded then 0.5 else 0.0
  let total := 1.0 + access + recent + boost - penalty
  if total < floor then floor else total

/-- Whether two scores count as different. -/
def differs (stored computed : Float) : Bool :=
  changeEpsilon < (stored - computed).abs

/-- The entry rescored, with the time of it. -/
def rescored (r : Relevance) (salience : Double) (now : Timestamp) : Relevance :=
  { r with salience := salience, updatedAt := now }

/-- The entry with its salience at `now`, whatever it was before. -/
def scoredAt (r : Relevance) (now : Timestamp) : Relevance :=
  r.rescored (.ofFloat (r.score now)) now

/-- The entry rescored at `now`, if its score has changed. -/
def refreshed? (r : Relevance) (now : Timestamp) : Option Relevance :=
  if differs r.salience.toFloat (r.score now) then some (r.scoredAt now) else none

/-- The relevance of an entry created at `now`. -/
def fresh (now : Timestamp) : Relevance :=
  scoredAt ⟨0, none, .ofFloat 0.0, none, false, now, now⟩ now

@[simp] theorem salience_scoredAt (r : Relevance) (now : Timestamp) :
    (r.scoredAt now).salience = .ofFloat ((r.scoredAt now).score (r.scoredAt now).updatedAt) := rfl

end Relevance
end SalientGraph
