import SalientGraph.Proofs.Calls
import SalientGraph.Proofs.Discipline

/-!
# Reading

All that reads the graph of a tenant is put together from a few steps: checks and
waiting, requests to the store, random draws, and looking at what the transaction sees.
So whatever discipline these steps obey, all of reading obeys.
-/

namespace SalientGraph

namespace TxAction

variable {α β : Type}

/-- The time. -/
def clock : TxAction Nat := fun _ s =>
  .ok s.world.clock s

/-- Sets the time, without waiting. -/
def setClock (time : Nat) : TxAction Unit := fun _ s =>
  .ok () { s with world := { s.world with clock := time } }

/-- What is run at the same time may as well be run one after the other with the clock turned back
in between. -/
theorem alongside_eq (first : TxAction α) (second : TxAction β) :
    alongside first second = (do
      let begun ← clock
      let a ← attempt first
      let ended ← clock
      setClock begun
      let b ← attempt second
      let later ← clock
      setClock (max ended later)
      return (a, b)) := by
  funext scope s
  simp only [alongside, bind, ReaderT.bind, EStateM.bind, clock, setClock, attempt]
  cases first scope s with
  | ok a s' =>
      dsimp only
      cases second scope { s' with world := { s'.world with clock := s.world.clock } } <;> rfl
  | error f s' =>
      dsimp only
      cases second scope { s' with world := { s'.world with clock := s.world.clock } } <;> rfl

end TxAction

theorem Action.outcome_eq_attempt {α : Type} (act : Action α) : outcome act = attempt act := by
  funext scope w
  unfold outcome attempt
  cases act scope w <;> rfl

theorem Discipline.Obeys.ofOutcome {α ι : Type} {d : Discipline ι World}
    (outcome : Except Fault α) : d.Obeys (Action.ofOutcome outcome) := by
  cases outcome with
  | ok a => exact .pure a
  | error f => exact .throw f

/-- Disciplines of what acts on a world and of what acts in a transaction, which the steps of
reading the graph of a tenant obey. -/
structure Readable {ι κ : Type} (tenant : Tenant) (d : Discipline ι World)
    (t : Discipline κ Session) : Prop where
  check : d.Obeys Action.check
  wait : ∀ duration, d.Obeys (Action.wait duration)
  request : ∀ r, d.Obeys (Action.request r)
  draw : d.Obeys Action.draw
  hasFullText : d.Obeys Action.hasFullText
  vectorOnline : d.Obeys Action.vectorOnline
  countExpansion : d.Obeys Action.countExpansion
  inTransaction : ∀ {α : Type} {act : Action α}, d.Obeys act → t.Obeys (Action.inTransaction act)
  view : t.Obeys (TxAction.view tenant)
  clock : t.Obeys TxAction.clock
  setClock : ∀ time, t.Obeys (TxAction.setClock time)

namespace Readable

open Engine

variable {α β ι κ : Type} {tenant : Tenant} {d : Discipline ι World} {t : Discipline κ Session}
  (h : Readable tenant d t)
include h

theorem ofOutcome (outcome : Except Fault α) :
    t.Obeys (Action.inTransaction (Action.ofOutcome outcome)) :=
  h.inTransaction (.ofOutcome outcome)

theorem step {act : TxAction α} (hact : t.Obeys act) : t.Obeys (TxAction.step act) :=
  (h.inTransaction h.check).bind fun _ => hact

theorem reading (r : Request) (answer : View → α) : t.Obeys (TxAction.reading r tenant answer) :=
  (h.inTransaction (h.request r)).bind fun _ => h.view.bind fun v => .pure (answer v)

/-! ## Rows as the store keeps them -/

theorem hasNode (id : String) : t.Obeys (TxAction.hasNode tenant id) :=
  (h.reading _ _).bind fun row => .pure row.isSome

theorem pairsTouching (ids : List String) (limit : Nat) :
    t.Obeys (TxAction.pairsTouching tenant ids limit) :=
  (h.reading _ _).bind fun pairs => (h.inTransaction h.countExpansion).bind fun _ => .pure pairs

theorem vectorRows (embedding : List Single) (limit : Nat) :
    t.Obeys (TxAction.vectorCandidates tenant embedding limit) := by
  apply (h.inTransaction (h.request .vectorCandidates)).bind
  intro _
  apply (h.inTransaction h.vectorOnline).bind
  intro online
  cases online with
  | false => exact .throw _
  | true =>
      cases embedding with
      | nil => exact .throw _
      | cons x xs => exact h.view.bind fun v => .pure _

/-- What is run at the same time obeys if both sides do. -/
theorem alongside {first : TxAction α} {second : TxAction β} (hfirst : t.Obeys first)
    (hsecond : t.Obeys second) : t.Obeys (TxAction.alongside first second) := by
  rw [TxAction.alongside_eq]
  exact h.clock.bind fun begun => hfirst.attempt.bind fun a => h.clock.bind fun ended =>
    (h.setClock begun).bind fun _ => hsecond.attempt.bind fun b =>
      h.clock.bind fun later => (h.setClock (max ended later)).bind fun _ => .pure (a, b)

/-! ## The catalog -/

variable (e : Engine)

theorem node? (id : String) : t.Obeys (e.node? tenant id) := by
  apply (h.reading _ _).bind
  intro row
  cases row with
  | none => exact .pure none
  | some row => exact (h.ofOutcome _).bind fun node => .pure (some node)

theorem requireNode (id : String) : t.Obeys (e.requireNode tenant id) := by
  apply (h.node? e id).bind
  intro node
  cases node with
  | none => exact .throw _
  | some node => exact .pure node

theorem nodesInOrder (ids : List String) : t.Obeys (e.nodesInOrder tenant ids) :=
  (h.reading _ _).bind fun _ => h.ofOutcome _

theorem edge? (key : EdgeKey) : t.Obeys (e.edge? tenant key) := by
  apply (h.reading _ _).bind
  intro row
  cases row with
  | none => exact .pure none
  | some row => exact (h.ofOutcome _).bind fun edge => .pure (some edge)

theorem edgesFrom (id : String) (limit : Nat) : t.Obeys (e.edgesFrom tenant id limit) :=
  (h.reading _ _).bind fun _ => h.ofOutcome _

theorem edgesTo (id : String) (limit : Nat) : t.Obeys (e.edgesTo tenant id limit) :=
  (h.reading _ _).bind fun _ => h.ofOutcome _

theorem edgesWithin (ids : List String) (limit : Nat) : t.Obeys (e.edgesWithin tenant ids limit) :=
  (h.reading _ _).bind fun _ => h.ofOutcome _

theorem textCandidates (q : TextQuery) (limit : Nat) :
    t.Obeys (e.textCandidates tenant q limit) :=
  (h.reading _ _).bind fun _ => h.ofOutcome _

theorem vectorCandidates (embedding : List Single) (limit : Nat) :
    t.Obeys (e.vectorCandidates tenant embedding limit) :=
  (h.vectorRows embedding limit).bind fun _ => h.ofOutcome _

omit e in
theorem checkEnd (id : String) : t.Obeys (checkEnd tenant id) := by
  apply (h.hasNode id).bind
  intro present
  cases present with
  | false => exact .throw _
  | true => exact .pure ()

omit e in
theorem requireRow (id : String) : t.Obeys (requireRow tenant id) := by
  apply (h.step (h.reading _ _)).bind
  intro row
  cases row with
  | none => exact .throw _
  | some row => exact .pure row

/-! ## Traversals -/

theorem neighborhood (id : String) (limit : Nat) : t.Obeys (e.neighborhood tenant id limit) :=
  (h.step (h.requireNode e id)).bind fun _ => (h.step (h.edgesFrom e id _)).bind fun _ =>
    (h.step (h.edgesTo e id _)).bind fun _ => (h.step (h.nodesInOrder e _)).bind fun _ => .pure _

theorem hop (frontier : List String) : t.Obeys (e.hop tenant frontier) :=
  h.step (h.pairsTouching frontier _)

theorem expand (hops : Nat) : ∀ x : Expansion, t.Obeys (e.expand tenant hops x) := by
  induction hops with
  | zero => exact fun x => .pure x
  | succ hops ih =>
      intro x
      unfold Engine.expand
      dsimp only
      split
      · exact .pure x
      · split
        · exact .pure _
        · apply (h.hop e x.frontier).bind
          intro pairs
          split
          · exact .pure _
          · exact ih _

theorem induced (x : Expansion) : t.Obeys (e.induced tenant x) :=
  (h.step (h.nodesInOrder e _)).bind fun _ =>
    (h.step (h.edgesWithin e _ _)).bind fun _ => .pure _

theorem subgraph (id : String) (hops : Nat) : t.Obeys (e.subgraph tenant id hops) := by
  apply (h.step (h.requireNode e id)).bind
  intro root
  split
  · exact .pure _
  · exact (h.expand e _ _).bind fun x => h.induced e x

theorem sample (ids : List String) (size : Nat) : d.Obeys (e.sample ids size) :=
  h.draw.bind fun _ => .pure _

theorem seek (start : String) (hops : Nat) :
    ∀ (frontier : List String) (s : PathSearch), t.Obeys (e.seek tenant start hops frontier s) := by
  induction hops with
  | zero =>
      intro frontier s
      unfold Engine.seek
      exact .pure _
  | succ hops ih =>
      intro frontier s
      unfold Engine.seek
      dsimp only
      split
      · exact .pure _
      · apply (h.hop e frontier).bind
        intro pairs
        split
        · exact (h.step (h.nodesInOrder e _)).bind fun _ => .pure _
        · split
          · exact .pure _
          · split
            · exact (h.inTransaction (h.sample e _ _)).bind fun _ => ih _ _
            · exact ih _ _

theorem path (start target : String) : t.Obeys (e.path tenant start target) := by
  unfold Engine.path
  split
  · exact (h.step (h.requireNode e start)).bind fun _ => .pure _
  · apply (h.step (h.hasNode start)).bind
    intro present
    cases present with
    | false => exact .throw _
    | true =>
        apply (h.step (h.hasNode target)).bind
        intro present
        cases present with
        | false => exact .pure _
        | true => exact h.seek e start _ _ _

/-! ## Searches -/

theorem textSide (q : TextQuery) (limit : Nat) : t.Obeys (e.textSide tenant q limit) := by
  apply (h.inTransaction h.hasFullText).bind
  intro fullText
  cases fullText with
  | false => exact .throw _
  | true => exact h.step (h.textCandidates e q limit)

theorem vectorSide (embedding : List Single) (limit : Nat) :
    t.Obeys (e.vectorSide tenant embedding limit) := by
  unfold Engine.vectorSide
  split
  · exact .throw _
  · apply (h.inTransaction h.vectorOnline).bind
    intro online
    cases online with
    | false => exact .throw _
    | true => exact h.step (h.vectorCandidates e embedding limit)

omit e in
theorem consult (embedder : Embedder) (text : String) : d.Obeys (consult embedder text) := by
  unfold Engine.consult
  rw [Action.run_eq]
  exact h.check.bind fun _ => (h.wait _).bind fun _ => .ofOutcome _

theorem embed (text : String) : d.Obeys (e.embed text) := by
  unfold Engine.embed
  cases e.embedder with
  | none => exact .throw _
  | some embedder =>
      dsimp only
      split
      · exact .throw _
      · rw [Action.outcome_eq_attempt]
        apply (h.consult embedder text).attempt.bind
        intro result
        cases result with
        | ok vector => exact .pure vector
        | error f =>
            dsimp only
            split
            · exact .throw f
            · exact .throw _

theorem hybridText (text : String) (limit : Nat) : t.Obeys (e.hybridText tenant text limit) := by
  unfold Engine.hybridText
  split
  · exact .pure []
  · exact h.textSide e _ limit

theorem hybridVector (text : String) (embedding : Option (List Single)) (limit : Nat) :
    t.Obeys (e.hybridVector tenant text embedding limit) := by
  unfold Engine.hybridVector
  cases embedding with
  | some vector => exact h.vectorSide e vector limit
  | none => exact (h.inTransaction (h.embed e text)).bind fun vector => h.vectorSide e vector limit

theorem hybrid (text : String) (embedding : Option (List Single)) (limit : Nat) :
    t.Obeys (e.hybrid tenant text embedding limit) := by
  apply (h.alongside (h.hybridText e text limit) (h.hybridVector e text embedding limit)).bind
  rintro ⟨textOutcome, vectorOutcome⟩
  exact (h.ofOutcome textOutcome).bind fun _ => (h.ofOutcome (vectorHits vectorOutcome)).bind
    fun _ => .pure _

/-! ## Calls -/

/-- A call that only reads obeys as soon as its transaction of its own does. -/
theorem perform (htransact : ∀ {α : Type} {body : TxAction α}, t.Obeys body →
    d.Obeys (Action.transact .readOnly body)) {call : Call} (hcall : call.isReading = true) :
    d.Obeys (e.perform tenant call) := by
  cases call with
  | getNode id => exact (htransact (h.step (h.requireNode e id))).bind fun _ => .pure _
  | getEdge key =>
      refine Discipline.Obeys.bind (htransact ?_) fun _ => .pure _
      apply (h.step (h.edge? e key)).bind
      intro edge
      cases edge with
      | none => exact .throw _
      | some edge => exact .pure edge
  | neighbors id limit => exact (htransact (h.neighborhood e id limit)).bind fun _ => .pure _
  | traverse id hops => exact (htransact (h.subgraph e id hops)).bind fun _ => .pure _
  | context id hops =>
      refine Discipline.Obeys.bind ?_ fun _ => .pure _
      apply (htransact (h.subgraph e id (e.contextHops hops))).bind
      intro found
      dsimp only
      split
      · exact .pure _
      · exact .throw _
  | shortestPath start target => exact (htransact (h.path e start target)).bind fun _ => .pure _
  | fullTextSearch q limit =>
      refine Discipline.Obeys.bind ?_ fun _ => .pure _
      unfold fullTextSearch
      split
      · exact .pure []
      · exact (htransact (h.textSide e q _)).bind fun _ => .pure _
  | semanticSearch embedding limit =>
      exact (htransact (h.vectorSide e embedding _)).bind fun _ => .pure _
  | hybridSearch text embedding limit =>
      exact (htransact (h.hybrid e text embedding _)).bind fun _ => .pure _
  | createNode | createEdge | removeNode | removeEdge | boostNode | boostEdge | supersedeNode
  | recordAccess | recalculate => contradiction

end Readable
end SalientGraph
