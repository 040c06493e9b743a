import SalientGraph.Relevance.Basic

/-!
# Updates of relevance

A change to the score fields of one entry and to nothing else. An update is kept as
a change, not as the changed entry, so that it can be applied to whatever the entry
holds when a transaction commits.
-/

namespace SalientGraph

/-- A new salience with its time, and at most one each of a boost, a successor and an access. -/
structure RelevanceUpdate where
  salience : Double
  updatedAt : Timestamp
  boost : Bool
  supersededBy : Option String
  accessedAt : Option Timestamp

/-- One more access at `t`. The count stops at the largest number of 64 bits. -/
def Relevance.accessed (r : Relevance) (t : Timestamp) : Relevance :=
  { r with
    accessCount := if r.accessCount + 1 = 0 then r.accessCount else r.accessCount + 1
    lastAccessed := some t }

namespace RelevanceUpdate

/-- A new score and nothing else. -/
def ofScore (salience : Double) (t : Timestamp) : RelevanceUpdate :=
  ⟨salience, t, false, none, none⟩

/-- An update at `t` whose score is still to be computed. -/
def unscored (t : Timestamp) : RelevanceUpdate :=
  ofScore (.ofFloat 0.0) t

/-- What the update does to the inputs of the formula. -/
def applyInputs (u : RelevanceUpdate) (r : Relevance) : Relevance :=
  let r := if u.boost then { r with userBoosted := true } else r
  let r := match u.supersededBy with
    | some successor => { r with supersededBy := some successor }
    | none => r
  match u.accessedAt with
  | some t => r.accessed t
  | none => r

/-- The entry after the update. -/
def apply (u : RelevanceUpdate) (r : Relevance) : Relevance :=
  (u.applyInputs r).rescored u.salience u.updatedAt

/-- The update with the score that `r` has once it is applied. -/
def scoredFor (u : RelevanceUpdate) (r : Relevance) : RelevanceUpdate :=
  { u with salience := .ofFloat ((u.applyInputs r).score u.updatedAt) }

/-- An update that was scored for an entry leaves it with the score of the formula. -/
theorem salience_apply_scoredFor (u : RelevanceUpdate) (r : Relevance) :
    ((u.scoredFor r).apply r).salience = .ofFloat (((u.scoredFor r).apply r).score u.updatedAt) := rfl

end RelevanceUpdate
end SalientGraph
