import SalientGraph.Edge

/-!
# Rated entries

Nodes and edges alike, open or sealed, carry their relevance. What is done to it is
said here once for all of them.
-/

namespace SalientGraph

/-- An entry that carries its relevance. -/
class Rated (ρ : Type) where
  relevance : ρ → Relevance
  mapRelevance : (Relevance → Relevance) → ρ → ρ

instance (π : Type) : Rated (Node π) :=
  ⟨Node.relevance, Node.mapRelevance⟩

instance (π : Type) : Rated (Edge π) :=
  ⟨Edge.relevance, Edge.mapRelevance⟩

namespace RelevanceUpdate

variable {ρ : Type} [Rated ρ]

/-- The entry after the update. -/
def applyTo (u : RelevanceUpdate) (row : ρ) : ρ :=
  Rated.mapRelevance u.apply row

/-- The entry after several updates, one after another. -/
def applyAll (us : List RelevanceUpdate) (row : ρ) : ρ :=
  us.foldl (fun row u => u.applyTo row) row

/-- The update scored for an entry, and the entry after it. -/
def plan (u : RelevanceUpdate) (row : ρ) : RelevanceUpdate × ρ :=
  let scored := u.scoredFor (Rated.relevance row)
  (scored, scored.applyTo row)

end RelevanceUpdate

@[simp] theorem Node.id_applyTo {π : Type} (u : RelevanceUpdate) (n : Node π) :
    (u.applyTo n).id = n.id := rfl

@[simp] theorem Edge.key_applyTo {π : Type} (u : RelevanceUpdate) (e : Edge π) :
    (u.applyTo e).key = e.key := rfl

end SalientGraph
