import SalientGraph.Engine.Entries
import SalientGraph.Engine.Salience
import SalientGraph.Engine.Sweep
import SalientGraph.Proofs.Store.Effects

/-!
# Scripts

What the body of a transaction does, cut at its requests: a script asks for something,
and what it does next depends on the answer. Run in one go, the scripts of this module
are the bodies of the transactions that the engine opens to change relevance or to
delete. Taken request by request they can be interleaved with those of others.

A script that never puts a row is modest. All scripts of this module are.
-/

namespace SalientGraph

/-- A transaction from its next request on. -/
inductive Script (α : Type) where
  | answer (a : α)
  | refuse (f : Fault)
  /-- The scope is consulted. -/
  | check (rest : Script α)
  /-- The calendar is read. -/
  | today (rest : Timestamp → Script α)
  | read (r : Request) (tenant : Tenant) (rest : View → Script α)
  | write (tenant : Tenant) (w : Write) (rest : Write.Answer → Script α)

/-- Under which name the store is asked for a write. -/
def Write.request : Write → Request
  | putNode _ => .putNode
  | deleteNode _ => .deleteNode
  | updateNode _ _ => .updateNode
  | putEdge _ => .putEdge
  | deleteEdge _ => .deleteEdge
  | updateEdge _ _ => .updateEdge
  | deleteEdgesTouching _ => .deleteEdgesTouching

namespace Script

variable {α β : Type}

protected def bind : Script α → (α → Script β) → Script β
  | answer a, next => next a
  | refuse f, _ => .refuse f
  | check rest, next => .check (rest.bind next)
  | today rest, next => .today fun t => (rest t).bind next
  | read r tenant rest, next => .read r tenant fun v => (rest v).bind next
  | write tenant w rest, next => .write tenant w fun a => (rest a).bind next

instance : Monad Script where
  pure := answer
  bind := Script.bind

theorem bind_answer (p : Script α) : p.bind answer = p := by
  induction p with
  | answer a => rfl
  | refuse f => rfl
  | check rest ih => rw [Script.bind, ih]
  | today rest ih => rw [Script.bind, funext ih]
  | read r tenant rest ih => rw [Script.bind, funext ih]
  | write tenant w rest ih => rw [Script.bind, funext ih]

protected theorem bind_assoc {γ : Type} (p : Script α) (f : α → Script β) (g : β → Script γ) :
    (p.bind f).bind g = p.bind fun a => (f a).bind g := by
  induction p with
  | answer a => rfl
  | refuse f => rfl
  | check rest ih => simp only [Script.bind, ih]
  | today rest ih => simp only [Script.bind, ih]
  | read r tenant rest ih => simp only [Script.bind, ih]
  | write tenant w rest ih => simp only [Script.bind, ih]

instance : LawfulMonad Script :=
  LawfulMonad.mk' Script bind_answer (fun _ _ => rfl) Script.bind_assoc

/-- All requests of the script one after another. -/
def run : Script α → TxAction α
  | answer a => pure a
  | refuse f => throw f
  | check rest => do
    Action.check
    run rest
  | today rest => do
    let t ← Action.now
    run (rest t)
  | read r tenant rest => do
    let v ← TxAction.reading r tenant id
    run (rest v)
  | write tenant w rest => do
    let a ← TxAction.writing w.request fun store tx => w.stage store tx tenant
    run (rest a)

/-- The script never puts a row. -/
def Modest : Script α → Prop
  | answer _ => True
  | refuse _ => True
  | check rest => rest.Modest
  | today rest => ∀ t, (rest t).Modest
  | read _ _ rest => ∀ v, (rest v).Modest
  | write _ w rest => w.isPut = false ∧ ∀ a, (rest a).Modest

theorem Modest.bind {p : Script α} {next : α → Script β} (hp : p.Modest)
    (hnext : ∀ a, (next a).Modest) : (p >>= next).Modest := by
  induction p with
  | answer a => exact hnext a
  | refuse f => trivial
  | check rest ih => exact ih hp
  | today rest ih => exact fun t => ih t (hp t)
  | read r tenant rest ih => exact fun v => ih v (hp v)
  | write tenant w rest ih => exact ⟨hp.1, fun a => ih a (hp.2 a)⟩

theorem Modest.mapM {f : α → Script β} (hf : ∀ a, (f a).Modest) (xs : List α) :
    (xs.mapM f).Modest := by
  induction xs with
  | nil => trivial
  | cons x xs ih =>
      rw [List.mapM_cons]
      exact (hf x).bind fun _ => ih.bind fun _ => trivial

end Script

/-! ## Running -/

namespace Script

variable {α β : Type}

theorem run_bind (p : Script α) (next : α → Script β) :
    (p >>= next).run = p.run >>= fun a => (next a).run := by
  induction p with
  | answer a =>
      show (next a).run = (pure a : TxAction α) >>= fun a => (next a).run
      rw [pure_bind]
  | refuse f => rfl
  | check rest ih =>
      show (Script.check (rest >>= next)).run = _
      simp only [run, ih, bind_assoc]
  | today rest ih =>
      show (Script.today fun t => rest t >>= next).run = _
      simp only [run, ih, bind_assoc]
  | read r tenant rest ih =>
      show (Script.read r tenant fun v => rest v >>= next).run = _
      simp only [run, ih, bind_assoc]
  | write tenant w rest ih =>
      show (Script.write tenant w fun a => rest a >>= next).run = _
      simp only [run, ih, bind_assoc]

theorem run_pure (a : α) : (pure a : Script α).run = pure a := rfl

theorem run_mapM (f : α → Script β) (xs : List α) :
    (xs.mapM f).run = xs.mapM fun x => (f x).run := by
  induction xs with
  | nil => rfl
  | cons x xs ih =>
      rw [List.mapM_cons, List.mapM_cons, run_bind]
      congr 1
      funext b
      rw [run_bind, ih]
      rfl

end Script

/-! ## The transactions of the engine -/

namespace Script

/-- The script of a step: the scope is consulted before it. -/
def step {α : Type} (p : Script α) : Script α :=
  check p

theorem run_step {α : Type} (p : Script α) : p.step.run = TxAction.step p.run := rfl

/-- The calendar. -/
def now : Script Timestamp :=
  today answer

def node? (tenant : Tenant) (id : String) : Script (Option SealedNode) :=
  read .node tenant fun v => answer (v.node? id)

def edge? (tenant : Tenant) (key : EdgeKey) : Script (Option SealedEdge) :=
  read .edge tenant fun v => answer (v.edge? key)

def nodes (tenant : Tenant) (ids : List String) : Script (List SealedNode) :=
  read .nodes tenant fun v => answer (v.nodesOf ids ids.length)

def nodesAfter (tenant : Tenant) (cursor : Option String) (limit : Nat) :
    Script (List SealedNode) :=
  read .nodesAfter tenant fun v => answer (v.nodesAfter cursor limit)

/-- A write that answers whether there was such an entry. -/
def writeFound (tenant : Tenant) (w : Write) : Script Bool :=
  write tenant w fun
    | .found present => answer present
    | _ => answer false

def requireRow (tenant : Tenant) (id : String) : Script SealedNode := do
  match ← step (node? tenant id) with
  | some row => return row
  | none => refuse (.notFound ("node " ++ id))

def rateNode (tenant : Tenant) (row : SealedNode) (u : RelevanceUpdate) : Script SealedNode := do
  let (update, rated) := u.plan row
  if ← step (writeFound tenant (.updateNode row.id update)) then return rated
  else refuse (.notFound ("node " ++ row.id))

/-- What a boost of a node does in its transaction. -/
def boostNode (tenant : Tenant) (id : String) : Script SealedNode := do
  let row ← requireRow tenant id
  let now ← now
  rateNode tenant row { RelevanceUpdate.unscored now with boost := true }

/-- What a boost of an edge does in its transaction. -/
def boostEdge (tenant : Tenant) (key : EdgeKey) : Script SealedEdge := do
  match ← step (edge? tenant key) with
  | none => refuse (.notFound ("edge " ++ key.text))
  | some row =>
    let now ← now
    let u := { RelevanceUpdate.unscored now with boost := true }
    let (update, rated) := u.plan row
    if ← step (writeFound tenant (.updateEdge key update)) then return rated
    else refuse (.notFound ("edge " ++ key.text))

/-- What superseding a node does in its transaction. -/
def succeed (tenant : Tenant) (old new : String) : Script SealedNode := do
  let oldRow ← requireRow tenant old
  let newRow ← requireRow tenant new
  let now ← now
  let u := RelevanceUpdate.unscored now
  let rated ← rateNode tenant oldRow { u with supersededBy := some new }
  let _ ← rateNode tenant newRow u
  return rated

/-- What counting accesses does in its transaction. -/
def count (tenant : Tenant) (ids : List String) : Script (List SealedNode) := do
  let rows ← step (nodes tenant ids)
  let now ← now
  rows.mapM fun row =>
    rateNode tenant row { RelevanceUpdate.unscored now with accessedAt := some now }

def refresh (tenant : Tenant) (now : Timestamp) (row : SealedNode) : Script Bool := do
  match row.relevance.refreshed? now with
  | none => return false
  | some fresh =>
    step (writeFound tenant (.updateNode row.id (RelevanceUpdate.ofScore fresh.salience now)))

/-- What a batch of a sweep does in its transaction. -/
def batch (e : Engine) (tenant : Tenant) (cursor : Option String) : Script Engine.Batch := do
  let rows ← step (nodesAfter tenant cursor e.batchSize)
  let now ← now
  let changes ← rows.mapM (refresh tenant now)
  return ⟨rows.map (·.id), changes.countP id⟩

/-- What removing a node does in its transaction. -/
def removeNode (tenant : Tenant) (id : String) : Script Bool :=
  step (write tenant (.deleteEdgesTouching id) fun _ => writeFound tenant (.deleteNode id))

/-- What removing an edge does in its transaction. -/
def removeEdge (tenant : Tenant) (key : EdgeKey) : Script Bool :=
  step (writeFound tenant (.deleteEdge key))

/-- To read something is to read the graph and to look for it there. -/
theorem run_read_answer {α : Type} (r : Request) (tenant : Tenant) (f : View → α) :
    (read r tenant fun v => answer (f v)).run = TxAction.reading r tenant f := by
  simp only [run, TxAction.reading, bind_assoc, pure_bind, id_eq]

/-- To stage a write is to ask the store for it, up to the form of the answer. -/
theorem writing_stage_bind {α β : Type} (r : Request) (tenant : Tenant) (w : Write)
    (direct : Store → Transaction → Except Fault (α × Transaction)) (form : α → Write.Answer)
    (h : ∀ s tx, w.stage s tx tenant = (direct s tx).map fun r => (form r.1, r.2))
    (next : Write.Answer → TxAction β) :
    (TxAction.writing r (fun s tx => w.stage s tx tenant) >>= next) =
      TxAction.writing r direct >>= fun a => next (form a) := by
  simp only [TxAction.writing, bind_assoc]
  congr 1
  funext _ scope s
  -- a refused write fails with the same fault on both sides
  simp only [bind, ReaderT.bind, EStateM.bind, TxAction.stage, h]
  cases direct s.world.store s.tx <;> rfl

theorem run_writeFound (tenant : Tenant) (w : Write)
    (direct : Store → Transaction → Except Fault (Bool × Transaction))
    (h : ∀ s tx, w.stage s tx tenant = (direct s tx).map fun r => (.found r.1, r.2)) :
    (writeFound tenant w).run = TxAction.writing w.request direct := by
  rw [writeFound, run, writing_stage_bind _ _ _ direct _ h]
  simp only [run, bind_pure]

theorem run_requireRow (tenant : Tenant) (id : String) :
    (requireRow tenant id).run = Engine.requireRow tenant id := by
  unfold requireRow Engine.requireRow
  rw [run_bind, run_step, node?, run_read_answer]
  congr 1
  funext row
  cases row <;> rfl

theorem run_now : now.run = (Action.now : TxAction Timestamp) := by
  simp only [now, run, bind_pure]

theorem run_rateNode (tenant : Tenant) (row : SealedNode) (u : RelevanceUpdate) :
    (rateNode tenant row u).run = Engine.rateNode tenant row u := by
  unfold rateNode Engine.rateNode
  dsimp only
  rw [run_bind, run_step, run_writeFound _ _ _ fun _ _ => rfl]
  congr 1
  funext present
  cases present <;> rfl

theorem run_boostEdge (tenant : Tenant) (key : EdgeKey) :
    (boostEdge tenant key).run = (do
      match ← TxAction.step (TxAction.edge? tenant key) with
      | none => throw (.notFound ("edge " ++ key.text))
      | some row =>
        let now ← Action.now
        let u := { RelevanceUpdate.unscored now with boost := true }
        let (update, rated) := u.plan row
        if ← TxAction.step (TxAction.updateEdge tenant key update) then return rated
        else throw (.notFound ("edge " ++ key.text))) := by
  unfold boostEdge
  rw [run_bind, run_step, edge?, run_read_answer]
  congr 1
  funext row
  cases row with
  | none => rfl
  | some row =>
      dsimp only
      rw [run_bind, run_now]
      congr 1
      funext now
      rw [run_bind, run_step, run_writeFound _ _ _ fun _ _ => rfl]
      congr 1
      funext present
      cases present <;> rfl

theorem run_succeed (tenant : Tenant) (old new : String) :
    (succeed tenant old new).run = Engine.succeed tenant old new := by
  simp only [succeed, Engine.succeed, run_bind, run_requireRow, run_now, run_rateNode, run_pure]

theorem run_count (tenant : Tenant) (ids : List String) :
    (count tenant ids).run = Engine.count tenant ids := by
  simp only [count, Engine.count, nodes, run_bind, run_step, run_read_answer, run_now, run_mapM,
    run_rateNode, TxAction.nodes]

theorem run_refresh (tenant : Tenant) (now : Timestamp) (row : SealedNode) :
    (refresh tenant now row).run = Engine.refresh tenant now row := by
  unfold refresh Engine.refresh
  cases row.relevance.refreshed? now with
  | none => rfl
  | some fresh => exact congrArg TxAction.step (run_writeFound _ _ _ fun _ _ => rfl)

theorem run_batch (e : Engine) (tenant : Tenant) (cursor : Option String) :
    (batch e tenant cursor).run = e.batch tenant cursor := by
  simp only [batch, Engine.batch, nodesAfter, run_bind, run_step, run_read_answer, run_now,
    run_mapM, run_refresh, run_pure, TxAction.nodesAfter]

theorem run_removeNode (tenant : Tenant) (id : String) :
    (removeNode tenant id).run = TxAction.step (Engine.deleteNode tenant id) := by
  rw [removeNode, run_step, run, writing_stage_bind _ _ _
    (fun s tx => s.deleteEdgesTouching tx tenant id) .removed fun _ _ => rfl,
    run_writeFound _ _ _ fun _ _ => rfl]
  rfl

theorem run_removeEdge (tenant : Tenant) (key : EdgeKey) :
    (removeEdge tenant key).run = TxAction.step (TxAction.deleteEdge tenant key) := by
  rw [removeEdge, run_step, run_writeFound _ _ _ fun _ _ => rfl]
  rfl

/-! ### What the engine runs -/

/-- A boost of a node runs its script in a transaction. -/
theorem boostNode_eq (e : Engine) (tenant : Tenant) (id : String) :
    e.boostNode tenant id = (do
      let row ← Action.transact .readWrite (boostNode tenant id).run
      Action.announce (.nodeBoosted tenant id)
      Action.ofOutcome (e.openNode tenant row)) := by
  simp only [boostNode, Engine.boostNode, run_bind, run_requireRow, run_now, run_rateNode]

/-- A boost of an edge runs its script in a transaction. -/
theorem boostEdge_eq (e : Engine) (tenant : Tenant) (key : EdgeKey) :
    e.boostEdge tenant key = (do
      let row ← Action.transact .readWrite (boostEdge tenant key).run
      Action.announce (.edgeBoosted tenant key)
      Action.ofOutcome (e.openEdge tenant row)) := by
  rw [run_boostEdge]
  rfl

/-- Superseding a node runs its script in a transaction. -/
theorem supersedeNode_eq (e : Engine) (tenant : Tenant) (old new : String) :
    e.supersedeNode tenant old new = (do
      if old = new then throw (.invalidArgument ("node " ++ old ++ " cannot supersede itself"))
      else
        let row ← Action.transact .readWrite (succeed tenant old new).run
        Action.announce (.nodeSuperseded tenant old new)
        Action.ofOutcome (e.openNode tenant row)) := by
  simp only [Engine.supersedeNode, run_succeed]

/-- Counting accesses runs its script in a transaction, if there is anything to count. -/
theorem recordAccess_eq (e : Engine) (tenant : Tenant) (ids : List String) :
    e.recordAccess tenant ids = (do
      let ids := distinct ids
      if ids.isEmpty then return []
      else
        let rows ← Action.transact .readWrite (count tenant ids).run
        if !rows.isEmpty then Action.announce (.nodesAccessed tenant (rows.map (·.id)))
        Action.ofOutcome (e.openNodes tenant rows)) := by
  simp only [Engine.recordAccess, run_count]

/-- A sweep runs the script of one batch after the other, each in a transaction. -/
theorem sweepFrom_succ_eq (e : Engine) (tenant : Tenant) (more : Nat) (cursor : Option String) :
    e.sweepFrom tenant (more + 1) cursor = (do
      let done ← Action.transact .readWrite (batch e tenant cursor).run
      if done.ids.length < e.batchSize then return [done]
      else return done :: (← e.sweepFrom tenant more done.ids.getLast?)) := by
  simp only [Engine.sweepFrom, run_batch]

/-- Removing a node runs its script in a transaction. -/
theorem removeNode_eq (tenant : Tenant) (id : String) :
    Engine.removeNode tenant id = Action.transact .readWrite (removeNode tenant id).run := by
  rw [Engine.removeNode, run_removeNode]

/-- Removing an edge runs its script in a transaction. -/
theorem removeEdge_eq (tenant : Tenant) (key : EdgeKey) :
    Engine.removeEdge tenant key = Action.transact .readWrite (removeEdge tenant key).run := by
  rw [Engine.removeEdge, run_removeEdge]

/-! ### All of them are modest -/

theorem modest_writeFound (tenant : Tenant) {w : Write} (h : w.isPut = false) :
    (writeFound tenant w).Modest := by
  refine ⟨h, ?_⟩
  intro a
  cases a <;> trivial

theorem modest_requireRow (tenant : Tenant) (id : String) : (requireRow tenant id).Modest := by
  have hread : (step (node? tenant id)).Modest := fun _ => trivial
  apply hread.bind
  intro row
  cases row <;> trivial

theorem modest_rateNode (tenant : Tenant) (row : SealedNode) (u : RelevanceUpdate) :
    (rateNode tenant row u).Modest := by
  have hwrite : (step (writeFound tenant (.updateNode row.id (u.plan row).1))).Modest :=
    modest_writeFound tenant rfl
  apply hwrite.bind
  intro present
  cases present <;> trivial

theorem modest_now : now.Modest :=
  fun _ => trivial

theorem modest_boostNode (tenant : Tenant) (id : String) : (boostNode tenant id).Modest :=
  (modest_requireRow tenant id).bind fun row =>
    modest_now.bind fun _ => modest_rateNode tenant row _

theorem modest_boostEdge (tenant : Tenant) (key : EdgeKey) : (boostEdge tenant key).Modest := by
  have hread : (step (edge? tenant key)).Modest := fun _ => trivial
  apply hread.bind
  intro row
  cases row with
  | none => trivial
  | some row =>
      apply modest_now.bind
      intro now
      have hwrite : ∀ u, (step (writeFound tenant (.updateEdge key u))).Modest :=
        fun _ => modest_writeFound tenant rfl
      apply (hwrite _).bind
      intro present
      cases present <;> trivial

theorem modest_succeed (tenant : Tenant) (old new : String) : (succeed tenant old new).Modest :=
  (modest_requireRow tenant old).bind fun oldRow =>
    (modest_requireRow tenant new).bind fun newRow => modest_now.bind fun _ =>
      (modest_rateNode tenant oldRow _).bind fun _ =>
        (modest_rateNode tenant newRow _).bind fun _ => trivial

theorem modest_count (tenant : Tenant) (ids : List String) : (count tenant ids).Modest := by
  have hread : (step (nodes tenant ids)).Modest := fun _ => trivial
  exact hread.bind fun rows => modest_now.bind fun _ =>
    .mapM (fun row => modest_rateNode tenant row _) rows

theorem modest_refresh (tenant : Tenant) (now : Timestamp) (row : SealedNode) :
    (refresh tenant now row).Modest := by
  unfold refresh
  cases row.relevance.refreshed? now with
  | none => trivial
  | some fresh => exact modest_writeFound tenant rfl

theorem modest_batch (e : Engine) (tenant : Tenant) (cursor : Option String) :
    (batch e tenant cursor).Modest := by
  have hread : (step (nodesAfter tenant cursor e.batchSize)).Modest :=
    fun _ => trivial
  exact hread.bind fun rows => modest_now.bind fun now =>
    (Modest.mapM (modest_refresh tenant now) rows).bind fun _ => trivial

theorem modest_removeNode (tenant : Tenant) (id : String) : (removeNode tenant id).Modest :=
  ⟨rfl, fun _ => modest_writeFound tenant rfl⟩

theorem modest_removeEdge (tenant : Tenant) (key : EdgeKey) : (removeEdge tenant key).Modest :=
  modest_writeFound tenant rfl

end Script

end SalientGraph
