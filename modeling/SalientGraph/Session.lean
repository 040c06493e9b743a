import SalientGraph.World

/-!
# Sessions

Acting on a world within an open transaction. A session reads the graph of a tenant as
its transaction sees it, stages writes, and keeps what it has staged when a step
fails. `Action.transact` runs a session in a transaction of its own.

The rows of a session are as the store keeps them, with sealed payloads.
-/

namespace SalientGraph

/-- A world with a transaction that is open in it. -/
structure Session where
  world : World
  tx : Transaction

/-- What acts on a world and an open transaction within a scope, and may fail. -/
abbrev TxAction : Type → Type :=
  ReaderT Scope (EStateM Fault Session)

namespace Action

variable {α : Type}

/-- Within a transaction, the world can be acted on as well. -/
def inTransaction (act : Action α) : TxAction α := fun scope session =>
  match act scope session.world with
  | .ok a w => .ok a { session with world := w }
  | .error f w => .error f { session with world := w }

instance : MonadLift Action TxAction :=
  ⟨inTransaction⟩

/-- The outcome of a session in a transaction, and the transaction after it. -/
def session (tx : Transaction) (body : TxAction α) : Action (Except Fault α × Transaction) :=
  fun scope w =>
    match body scope ⟨w, tx⟩ with
    | .ok a s => .ok (.ok a, s.tx) s.world
    | .error f s => .ok (.error f, s.tx) s.world

/-- Runs a session in a transaction of its own. -/
def transact (access : Access) (body : TxAction α) : Action α := do
  check
  let tx ← begin access
  let (answer, tx) ← session tx body
  settle tx answer

end Action

namespace TxAction

variable {α β : Type}

/-- A step of a session, which is not taken when the scope is over. -/
def step (act : TxAction α) : TxAction α := do
  Action.check
  act

/-- Runs two sessions at the same time. Both see the transaction, and the end has come when the
slower one is through. -/
def alongside (first : TxAction α) (second : TxAction β) :
    TxAction (Except Fault α × Except Fault β) := fun scope s =>
  let begun := s.world.clock
  let rewound (s : Session) : Session := { s with world := { s.world with clock := begun } }
  let joined (time : Nat) (s : Session) : Session :=
    { s with world := { s.world with clock := max time s.world.clock } }
  -- a fault of one side does not stop the other one
  let (a, s) : Except Fault α × Session :=
    match first scope s with
    | .ok a s => (.ok a, s)
    | .error f s => (.error f, s)
  match second scope (rewound s) with
  | .ok b t => .ok (a, .ok b) (joined s.world.clock t)
  | .error f t => .ok (a, .error f) (joined s.world.clock t)

/-- The graph of a tenant as the transaction sees it. -/
def view (tenant : Tenant) : TxAction View := fun _ s =>
  .ok (s.world.store.view s.tx tenant) s

/-- Stages a write, unless it is refused. -/
def stage (write : Store → Transaction → Except Fault (α × Transaction)) : TxAction α := fun _ s =>
  match write s.world.store s.tx with
  | .ok (a, tx) => .ok a { s with tx := tx }
  | .error f => .error f s

/-- Asks for something in the graph of a tenant. -/
def reading (r : Request) (tenant : Tenant) (answer : View → α) : TxAction α := do
  Action.request r
  return answer (← view tenant)

/-- Asks for a write to be staged. -/
def writing (r : Request) (write : Store → Transaction → Except Fault (α × Transaction)) :
    TxAction α := do
  Action.request r
  stage write

/-! ## Rows as the store keeps them -/

def node? (tenant : Tenant) (id : String) : TxAction (Option SealedNode) :=
  reading .node tenant (·.node? id)

/-- Whether there is such a node. -/
def hasNode (tenant : Tenant) (id : String) : TxAction Bool := do
  return (← node? tenant id).isSome

def nodes (tenant : Tenant) (ids : List String) (limit : Nat) : TxAction (List SealedNode) :=
  reading .nodes tenant (·.nodesOf ids limit)

/-- The nodes with the given identifiers in the order of first mention. -/
def nodesInOrder (tenant : Tenant) (ids : List String) : TxAction (List SealedNode) :=
  nodes tenant ids ids.length

def nodesAfter (tenant : Tenant) (cursor : Option String) (limit : Nat) :
    TxAction (List SealedNode) :=
  reading .nodesAfter tenant (·.nodesAfter cursor limit)

def edge? (tenant : Tenant) (key : EdgeKey) : TxAction (Option SealedEdge) :=
  reading .edge tenant (·.edge? key)

def edgesFrom (tenant : Tenant) (id : String) (limit : Nat) : TxAction (List SealedEdge) :=
  reading .edgesFrom tenant (·.edgesFrom id limit)

def edgesTo (tenant : Tenant) (id : String) (limit : Nat) : TxAction (List SealedEdge) :=
  reading .edgesTo tenant (·.edgesTo id limit)

def edgesWithin (tenant : Tenant) (ids : List String) (limit : Nat) : TxAction (List SealedEdge) :=
  reading .edgesWithin tenant (·.edgesWithin ids limit)

/-- The ends of edges that touch a set of nodes. The store counts these requests. -/
def pairsTouching (tenant : Tenant) (ids : List String) (limit : Nat) :
    TxAction (List (String × String)) := do
  let pairs ← reading .pairsTouching tenant (·.pairsTouching ids limit)
  Action.countExpansion
  return pairs

def textCandidates (tenant : Tenant) (q : TextQuery) (limit : Nat) : TxAction (List Candidate) :=
  reading .textCandidates tenant (·.textCandidates q limit)

/-- The nodes closest to an embedding, if the store can tell at the moment. -/
def vectorCandidates (tenant : Tenant) (embedding : List Single) (limit : Nat) :
    TxAction (List Candidate) := do
  Action.request .vectorCandidates
  if !(← Action.vectorOnline) then throw (.unavailable "vector index offline")
  if embedding.isEmpty then throw (.invalidArgument "empty query embedding")
  return (← view tenant).vectorCandidates embedding limit

def putNode (tenant : Tenant) (row : SealedNode) : TxAction Unit :=
  writing .putNode fun _ tx => return ((), ← Store.putNode tx tenant row)

def deleteNode (tenant : Tenant) (id : String) : TxAction Bool :=
  writing .deleteNode fun store tx => store.deleteNode tx tenant id

def updateNode (tenant : Tenant) (id : String) (u : RelevanceUpdate) : TxAction Bool :=
  writing .updateNode fun store tx => store.updateNode tx tenant id u

def putEdge (tenant : Tenant) (row : SealedEdge) : TxAction Unit :=
  writing .putEdge fun _ tx => return ((), ← Store.putEdge tx tenant row)

def deleteEdge (tenant : Tenant) (key : EdgeKey) : TxAction Bool :=
  writing .deleteEdge fun store tx => store.deleteEdge tx tenant key

def updateEdge (tenant : Tenant) (key : EdgeKey) (u : RelevanceUpdate) : TxAction Bool :=
  writing .updateEdge fun store tx => store.updateEdge tx tenant key u

def deleteEdgesTouching (tenant : Tenant) (id : String) : TxAction Nat :=
  writing .deleteEdgesTouching fun store tx => store.deleteEdgesTouching tx tenant id

end TxAction
end SalientGraph
