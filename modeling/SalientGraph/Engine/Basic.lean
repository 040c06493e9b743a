import SalientGraph.Cipher.Basic
import SalientGraph.Config
import SalientGraph.Session

/-!
# The engine

What the operations on a graph are configured with. The engine itself never changes;
whatever changes is in the world that its operations act on.
-/

namespace SalientGraph

/-- Turns texts into vectors, after some milliseconds each. -/
structure Embedder where
  latency : String → Nat
  embed : String → Except Fault (List Single)

/-- An engine. Its randomness is a source of nonces and of shuffled lists, one for each draw. -/
structure Engine where
  config : Config := {}
  cipher : Cipher := .plain
  embedder : Option Embedder := none
  nonce : Nat → Bytes
  shuffle : Nat → List String → List String
  shuffle_perm : ∀ (n : Nat) (ids : List String), (shuffle n ids).Perm ids

namespace Engine

/-- The engine, if its configuration is valid. -/
def checked (e : Engine) : Except Fault Engine := do
  e.config.validate
  return e

/-- A sample of `size` of the given identifiers, or all of them if there are fewer. -/
def sample (e : Engine) (ids : List String) (size : Nat) : Action (List String) := do
  return (e.shuffle (← Action.draw) ids).take size

end Engine
end SalientGraph
