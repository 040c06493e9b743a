import SalientGraph.ChangeEvent
import SalientGraph.Guard
import SalientGraph.Scope
import SalientGraph.Store.Candidates

/-!
# The world of a request

What the operations of the engine act on: the store and how it behaves at the moment,
the two clocks, the guard, and the events announced so far. An `Action` runs within a
scope. It may fail at any point and then leaves behind what it has done until there;
only waiting takes time, and only waiting is cut short when the scope is over.
-/

namespace SalientGraph

/-- What the store is asked for. -/
inductive Request where
  | begin
  | commit
  | rollback
  | node
  | nodes
  | putNode
  | deleteNode
  | updateNode
  | nodesAfter
  | edge
  | putEdge
  | deleteEdge
  | updateEdge
  | deleteEdgesTouching
  | edgesFrom
  | edgesTo
  | pairsTouching
  | edgesWithin
  | textCandidates
  | vectorCandidates
deriving DecidableEq, Inhabited

/-- How a store behaves at the moment, and who else uses it. -/
structure Conditions where
  /-- The milliseconds that a request takes, by the number of requests before it. -/
  delay : Nat → Request → Nat := fun _ _ => 0
  /-- Why a request fails, if it does. It then has no effect. -/
  failure : Nat → Request → Option String := fun _ _ => none
  /-- The transactions that others commit, each with the number of requests before it. -/
  others : List (Nat × Transaction) := []
  /-- Whether nodes can be ranked by terms. -/
  fullText : Bool := true

namespace Conditions

/-- The store once others have committed what they commit after so many requests. -/
def meanwhile (c : Conditions) (served : Nat) (store : Store) : Store :=
  (c.others.filter fun other => other.1 == served).foldl
    (fun store other => store.commit other.2) store

/-- The number of nodes of a tenant that others write. -/
def nodesWritten (c : Conditions) (tenant : Tenant) : Nat :=
  c.others.foldl (fun n other => n + (other.2.changesOf tenant).nodes.size) 0

/-- Where nobody else commits anything, the store stays as it is. -/
theorem meanwhile_of_others_eq_nil {c : Conditions} (h : c.others = []) (served : Nat)
    (store : Store) : c.meanwhile served store = store := by
  simp [meanwhile, h]

end Conditions

structure World where
  store : Store
  conditions : Conditions
  /-- The number of requests that the store has had. -/
  served : Nat
  /-- The time that waiting takes, in milliseconds. -/
  clock : Nat
  /-- What a calendar on the wall shows at each time. -/
  wall : Nat → Timestamp
  guard : Guard
  /-- The change events announced so far. -/
  announced : List ChangeEvent
  /-- The number of random draws so far. -/
  draws : Nat

namespace World

/-- An empty store and an unused guard at the start of time, with the wall clock standing still. -/
def start (guard : GuardConfig) (now : Timestamp) : World :=
  { store := {}
    conditions := {}
    served := 0
    clock := 0
    wall := fun _ => now
    guard := Guard.ofConfig guard
    announced := []
    draws := 0 }

/-- The world at a later time, after the clearings of the guard that were due before. -/
def advance (w : World) (time : Nat) : World :=
  { w with clock := time, guard := w.guard.elapse w.clock time }

@[simp] theorem advance_clock (w : World) : w.advance w.clock = w := by
  simp [advance]

/-- The world with its guard cleared at regular intervals from now on. -/
def tended (w : World) : World :=
  { w with guard := w.guard.startClearing }

/-- The world with the wall clock standing still at a point in time. -/
def withWall (w : World) (now : Timestamp) : World :=
  { w with wall := fun _ => now }

end World

/-- What acts on a world within a scope, and may fail. -/
abbrev Action : Type → Type :=
  ReaderT Scope (EStateM Fault World)

namespace Action

variable {α : Type}

/-- Refuses to go on when the scope is over. -/
def check : Action Unit := fun scope w =>
  match scope.check w.clock with
  | .ok () => .ok () w
  | .error f => .error f w

/-- Waits, unless the scope is over before. -/
def wait (duration : Nat) : Action Unit := fun scope w =>
  match scope.wait w.clock duration with
  | (.ok (), time) => .ok () (w.advance time)
  | (.error f, time) => .error f (w.advance time)

/-- Runs an action within another scope. -/
def within (change : Nat → Scope → Scope) (act : Action α) : Action α := fun scope w =>
  act (change w.clock scope) w

/-- Runs an action to its end, whatever becomes of the scope. -/
def uninterrupted (act : Action α) : Action α :=
  within (fun _ _ => Scope.unbounded) act

/-- The outcome of an action, which itself does not fail. -/
def outcome (act : Action α) : Action (Except Fault α) := fun scope w =>
  match act scope w with
  | .ok a w => .ok (.ok a) w
  | .error f w => .ok (.error f) w

/-- The answer or the fault that an outcome holds. -/
def ofOutcome : Except Fault α → Action α
  | .ok a => pure a
  | .error f => throw f

/-- Runs what takes some time to come to an outcome, unless the scope is over before. -/
def run (duration : Nat) (outcome : Except Fault α) : Action α := fun scope w =>
  match scope.run w.clock duration outcome with
  | (.ok a, time) => .ok a (w.advance time)
  | (.error f, time) => .error f (w.advance time)

/-- What the calendar shows. -/
def now : Action Timestamp := fun _ w =>
  .ok (w.wall w.clock) w

/-- Tells subscribers of a change. -/
def announce (event : ChangeEvent) : Action Unit :=
  modify fun w => { w with announced := w.announced ++ [event] }

/-- The number of a new random draw. -/
def draw : Action Nat :=
  modifyGet fun w => (w.draws, { w with draws := w.draws + 1 })

/-- After an answer, an action goes on with what follows. -/
theorem bind_of_ok {β : Type} {act : Action α} {next : α → Action β} {scope : Scope} {w v : World}
    {a : α} (h : act scope w = .ok a v) : (act >>= next) scope w = next a scope v := by
  simp only [bind, ReaderT.bind, EStateM.bind, h]

/-- After a fault, nothing follows. -/
theorem bind_of_error {β : Type} {act : Action α} {next : α → Action β} {scope : Scope}
    {w v : World} {f : Fault} (h : act scope w = .error f v) :
    (act >>= next) scope w = .error f v := by
  simp only [bind, ReaderT.bind, EStateM.bind, h]

/-- To run something is to consult the scope, to wait, and to come to the outcome. -/
theorem run_eq (duration : Nat) (outcome : Except Fault α) :
    run duration outcome = (do check; wait duration; ofOutcome outcome) := by
  funext scope w
  unfold run Scope.run
  cases hcheck : scope.check w.clock with
  | error f =>
      have hstopped : check scope w = .error f w := by
        unfold check
        rw [hcheck]
      rw [bind_of_error hstopped]
      exact congrArg (EStateM.Result.error f) w.advance_clock
  | ok _ =>
      have hgoes : check scope w = .ok () w := by
        unfold check
        rw [hcheck]
      rw [bind_of_ok hgoes]
      cases hwait : scope.wait w.clock duration with
      | mk waited finish =>
          cases waited with
          | error f =>
              have hcut : wait duration scope w = .error f (w.advance finish) := by
                unfold wait
                rw [hwait]
              rw [bind_of_error hcut]
              rfl
          | ok _ =>
              have hwaited : wait duration scope w = .ok () (w.advance finish) := by
                unfold wait
                rw [hwait]
              rw [bind_of_ok hwaited]
              cases outcome <;> rfl

/-! ## Requests to the store -/

/-- Makes a request: waits as long as it takes and fails if it is bound to. -/
def request (r : Request) : Action Unit := do
  let w ← get
  set { w with served := w.served + 1, store := w.conditions.meanwhile w.served w.store }
  wait (w.conditions.delay w.served r)
  match w.conditions.failure w.served r with
  | some reason => throw (.storage reason)
  | none => pure ()

/-- Begins a transaction. -/
def begin (access : Access) : Action Transaction := do
  request .begin
  modifyGet fun w => ((w.store.begin access).1, { w with store := (w.store.begin access).2 })

/-- Publishes what a transaction has staged. -/
def commit (tx : Transaction) : Action Unit := do
  request .commit
  modify fun w => { w with store := w.store.commit tx }

/-- Gives up what a transaction has staged. -/
def rollback : Action Unit :=
  request .rollback

/-- Counts a request for the edges that touch a set of nodes. -/
def countExpansion : Action Unit :=
  modify fun w => { w with store := { w.store with expansions := w.store.expansions + 1 } }

/-- Whether the store can rank nodes by terms at the moment. -/
def hasFullText : Action Bool := fun _ w =>
  .ok w.conditions.fullText w

/-- Whether the store can rank nodes by embeddings at the moment. -/
def vectorOnline : Action Bool := fun _ w =>
  .ok w.store.vectorOnline w

/-- Ends a transaction according to what came of it: commits it after an answer, and otherwise
gives it up and passes the fault on. Ending is not cut short. -/
def settle (tx : Transaction) : Except Fault α → Action α
  | .ok a => do
    uninterrupted (commit tx)
    return a
  | .error f => do
    -- a fault of the rollback gives way to the first fault
    let _ ← outcome (uninterrupted rollback)
    throw f

end Action
end SalientGraph
