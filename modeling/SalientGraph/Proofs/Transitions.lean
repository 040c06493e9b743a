import SalientGraph.Proofs.Ratings
import SalientGraph.Proofs.Sealing
import SalientGraph.Proofs.Stillness
import SalientGraph.Proofs.Store.Pages

/-!
# What transactions make of the graphs

While nobody else uses the store, the session of a transaction for writing makes other
graphs of the committed ones step by step, and once the transaction is answered these
are the committed ones. Faults need no care here: nothing shows of what was staged
before one.
-/

namespace SalientGraph

/-- In a transaction for writing, nobody else uses the store, and these graphs are to be seen. -/
structure Session.Sees (wall : Nat → Timestamp) (graphs : Tenant → Tables) (s : Session) :
    Prop where
  alone : s.world.conditions.others = []
  wall : s.world.wall = wall
  holds : s.world.store.Holds s.tx graphs

/-- Where these graphs are to be seen, an answer comes with graphs as described. -/
def TxAction.Makes {α : Type} (wall : Nat → Timestamp) (graphs : Tenant → Tables)
    (body : TxAction α) (described : α → (Tenant → Tables) → Prop) : Prop :=
  ∀ scope s, s.Sees wall graphs → ∀ a t, body scope s = .ok a t →
    ∃ graphs', described a graphs' ∧ t.Sees wall graphs'

variable {α β : Type} {wall : Nat → Timestamp} {graphs : Tenant → Tables} {tenant : Tenant}

namespace Session

theorem Sees.of_still {s : Session} {w : World} (h : s.Sees wall graphs) (hw : s.world.Still w) :
    Sees wall graphs { s with world := w } := by
  refine ⟨?_, hw.wall.trans h.wall, h.holds.writable, ?_, h.holds.wellKeyed⟩
  · rw [hw.conditions]
    exact h.alone
  · intro tenant
    rw [← h.holds.settled tenant]
    show (View.mk (w.store.tablesOf tenant) (s.tx.changesOf tenant)).settled = _
    rw [hw.tablesOf_eq h.alone]
    rfl

theorem sees_of_begun {w : World} {s : Session} (h : Action.Begun .readWrite w s)
    (halone : w.conditions.others = []) (hkeyed : w.store.WellKeyed) :
    s.Sees w.wall w.store.tablesOf := by
  refine ⟨?_, h.still.wall, ?_, ?_, hkeyed⟩
  · rw [h.still.conditions]
    exact halone
  · rw [h.access]
    rfl
  · intro tenant
    have hnothing : s.tx.changesOf tenant = {} := by
      rw [Transaction.changesOf, h.changes, Std.ExtTreeMap.getD_empty]
    show (s.tx.changesOf tenant).publish (s.world.store.tablesOf tenant) = _
    rw [hnothing, Store.publish_empty, h.still.tablesOf_eq halone]

end Session

namespace TxAction

variable {described : α → (Tenant → Tables) → Prop}

namespace Makes

theorem pure {a : α} (h : described a graphs) : Makes wall graphs (Pure.pure a) described := by
  intro scope s hs b t hrun
  cases hrun
  exact ⟨graphs, h, hs⟩

theorem throw (f : Fault) :
    Makes wall graphs (MonadExcept.throw f : TxAction α) described := by
  intro scope s hs b t hrun
  cases hrun

theorem bind {act : TxAction α} {next : α → TxAction β} {after : β → (Tenant → Tables) → Prop}
    (h : Makes wall graphs act described)
    (hnext : ∀ a graphs', described a graphs' → Makes wall graphs' (next a) after) :
    Makes wall graphs (act >>= next) after := by
  intro scope s hs b u hrun
  obtain ⟨a, t, hfirst, hsecond⟩ := exists_of_bind_eq_ok hrun
  obtain ⟨graphs', hmade, ht⟩ := h scope s hs a t hfirst
  exact hnext a graphs' hmade scope t ht b u hsecond

theorem weaken {act : TxAction α} {described' : α → (Tenant → Tables) → Prop}
    (h : Makes wall graphs act described)
    (himp : ∀ a graphs', described a graphs' → described' a graphs') :
    Makes wall graphs act described' := by
  intro scope s hs a t hrun
  obtain ⟨graphs', hmade, ht⟩ := h scope s hs a t hrun
  exact ⟨graphs', himp a graphs' hmade, ht⟩

end Makes

/-- The graphs to be seen keep their rows under the rows' own keys. -/
theorem Makes.of_wellKeyed {act : TxAction α}
    (h : (∀ tenant, (graphs tenant).WellKeyed) → Makes wall graphs act described) :
    Makes wall graphs act described :=
  fun scope s hs => h hs.holds.wellKeyed scope s hs

/-! ## Steps -/

/-- What is still makes nothing of the graphs. -/
theorem makes_still {act : Action α} (h : World.stillness.Obeys act) :
    Makes wall graphs (Action.inTransaction act) fun _ graphs' => graphs' = graphs := by
  intro scope s hs a t hrun
  have hstill := h.keeps scope s.world
  unfold Action.inTransaction at hrun
  cases hact : act scope s.world with
  | ok b w =>
      rw [hact] at hrun hstill
      cases hrun
      exact ⟨graphs, rfl, hs.of_still hstill⟩
  | error f w =>
      rw [hact] at hrun
      cases hrun

theorem makes_ofOutcome (outcome : Except Fault α) :
    Makes wall graphs (Action.inTransaction (Action.ofOutcome outcome)) fun a graphs' =>
      graphs' = graphs ∧ outcome = .ok a := by
  cases outcome with
  | ok a => exact .pure ⟨rfl, rfl⟩
  | error f => exact .throw f

/-- The time that is read off is on the calendar. -/
theorem makes_now :
    Makes wall graphs (Action.inTransaction Action.now) fun now graphs' =>
      graphs' = graphs ∧ ∃ time, wall time = now := by
  intro scope s hs now t hrun
  cases hrun
  refine ⟨graphs, ⟨rfl, s.world.clock, ?_⟩, hs⟩
  rw [← hs.wall]

theorem Makes.step {act : TxAction α} (h : Makes wall graphs act described) :
    Makes wall graphs (step act) described := by
  apply (makes_still Action.still_check).bind
  rintro _ _ rfl
  exact h

theorem makes_reading (r : Request) (answer : View → α) :
    Makes wall graphs (reading r tenant answer) fun a graphs' =>
      graphs' = graphs ∧ ∃ v : View, v.settled = graphs tenant ∧ answer v = a := by
  apply (makes_still (Action.still_request r)).bind
  rintro _ graphs rfl scope s hs a t hrun
  cases hrun
  exact ⟨graphs, ⟨rfl, s.view tenant, hs.holds.settled tenant, rfl⟩, hs⟩

/-- A write makes of the graphs what it would directly, and answers as it would. -/
theorem makes_writing (r : Request) (w : Write) (form : α → Write.Answer)
    {write : Store → Transaction → Except Fault (α × Transaction)}
    (hwrite : w.StagedBy tenant form write) :
    Makes wall graphs (writing r write) fun a graphs' =>
      graphs' = w.applyAt tenant graphs ∧ form a = w.answer (graphs tenant) := by
  apply (makes_still (Action.still_request r)).bind
  rintro _ _ rfl scope s hs a t hrun
  unfold stage at hrun
  cases hwritten : write s.world.store s.tx with
  | error f =>
      rw [hwritten] at hrun
      cases hrun
  | ok result =>
      rw [hwritten] at hrun
      cases hrun
      obtain ⟨tx, hstage, hholds⟩ := hs.holds.stage w tenant
      have hstaged := hwrite.stage_eq_ok hwritten
      rw [hstage] at hstaged
      obtain ⟨hanswer, rfl⟩ := Prod.mk.inj (Except.ok.inj hstaged)
      exact ⟨_, ⟨rfl, hanswer.symm⟩, hs.alone, hs.wall, hholds⟩

/-- What is done to each element of a list is answered for each, and makes all its writes in turn,
as long as the elements to come still fit the graphs. -/
theorem makes_mapM {f : α → TxAction β} {answer : α → β} {writes : α → List Write}
    (fits : List α → (Tenant → Tables) → Prop)
    (h : ∀ a rest graphs, fits (a :: rest) graphs → Makes wall graphs (f a) fun b graphs' =>
      graphs' = Write.applyEachAt (writes a) tenant graphs ∧ answer a = b ∧ fits rest graphs')
    (xs : List α) :
    ∀ graphs, fits xs graphs → Makes wall graphs (xs.mapM f) fun bs graphs' =>
      graphs' = Write.applyEachAt (xs.flatMap writes) tenant graphs ∧ xs.map answer = bs := by
  induction xs with
  | nil => exact fun _ _ => .pure ⟨rfl, rfl⟩
  | cons x xs ih =>
      intro graphs hfits
      rw [List.mapM_cons]
      apply (h x xs graphs hfits).bind
      rintro b _ ⟨rfl, rfl, hrest⟩
      apply (ih _ hrest).bind
      rintro bs _ ⟨rfl, rfl⟩
      refine .pure ⟨?_, rfl⟩
      rw [List.flatMap_cons, Write.applyEachAt_append]

end TxAction

/-! ## Transactions -/

/-- Alone, a transaction for writing fails and leaves the world still, or it is answered and the
graphs that its session has made are committed. -/
theorem Action.transact_makes {body : TxAction α} {described : α → (Tenant → Tables) → Prop}
    {w : World} (hbody : Session.stillness.Obeys body)
    (hmakes : body.Makes w.wall w.store.tablesOf described) (halone : w.conditions.others = [])
    (hkeyed : w.store.WellKeyed) (scope : Scope) :
    (∃ f v, transact .readWrite body scope w = .error f v ∧ w.Still v) ∨
      ∃ a graphs v, transact .readWrite body scope w = .ok a v ∧ described a graphs ∧
        w.Becomes graphs [] v := by
  rcases transact_cases hbody scope w with hfailed | ⟨a, s, t, u, hbegun, hs, hu, hrun⟩
  · exact .inl hfailed
  · obtain ⟨graphs, hmade, ht⟩ :=
      hmakes scope s (Session.sees_of_begun hbegun halone hkeyed) a t hs
    have hkept : s.Still (finalState (body scope s)) := hbody.keeps scope s
    rw [hs] at hkept
    have hworld : w.Still u := (hbegun.still.trans hkept.world).trans hu
    refine .inr ⟨a, graphs, _, hrun, hmade, ?_⟩
    refine ⟨hworld.conditions, hworld.wall, ?_, hworld.holder, ?_, ?_⟩
    · rw [List.append_nil]
      exact hworld.announced
    · intro tenant
      exact (ht.of_still hu).holds.tablesOf_commit tenant
    · intro tenant
      show ((u.store.commit t.tx).tablesOf tenant).WellKeyed
      rw [(ht.of_still hu).holds.tablesOf_commit tenant]
      exact ht.holds.wellKeyed tenant

/-! ## Editing -/

namespace Engine

open TxAction (Makes editable_stillness makes_still makes_ofOutcome makes_now makes_reading
  makes_writing makes_mapM)

/-- A row that is there is found as it is. -/
theorem makes_requireRow (id : String) :
    Makes wall graphs (requireRow tenant id) fun row graphs' =>
      graphs' = graphs ∧ (graphs tenant).nodes[id]? = some row := by
  apply (makes_reading .node (·.node? id)).step.bind
  rintro row _ ⟨rfl, v, hv, hrow⟩
  rw [View.node?_eq_settled, hv] at hrow
  cases row with
  | none => exact .throw _
  | some row => exact .pure ⟨rfl, hrow⟩

theorem makes_hasNode (id : String) :
    Makes wall graphs (TxAction.hasNode tenant id) fun present graphs' =>
      graphs' = graphs ∧ (graphs tenant).nodes[id]?.isSome = present := by
  apply (makes_reading .node (·.node? id)).bind
  rintro row _ ⟨rfl, v, hv, hrow⟩
  rw [View.node?_eq_settled, hv] at hrow
  exact .pure ⟨rfl, by rw [hrow]⟩

theorem makes_rateNode (r : Rating) :
    Makes wall graphs (rateNode tenant r.row r.update) fun rated graphs' =>
      graphs' = r.write.applyAt tenant graphs ∧ r.rated = rated := by
  have hupdate : Makes wall graphs
      (TxAction.updateNode tenant r.row.id (r.update.plan r.row).1) _ :=
    makes_writing .updateNode r.write .found fun _ _ => rfl
  apply hupdate.step.bind
  rintro present _ ⟨rfl, _⟩
  cases present with
  | false => exact .throw _
  | true => exact .pure ⟨rfl, rfl⟩

/-! ### Boosts, successors and accesses -/

theorem makes_boostRow (id : String) :
    Makes wall graphs (boostRow tenant id) fun rated graphs' => ∃ row time,
      (graphs tenant).nodes[id]? = some row ∧ Rating.rated ⟨row, .ofBoost (wall time)⟩ = rated ∧
        graphs' = Write.applyEachAt ((Call.boostNode id).updates (wall time) (graphs tenant)) tenant
          graphs := by
  apply (makes_requireRow id).bind
  rintro row graphs ⟨rfl, hrow⟩
  apply makes_now.bind
  rintro _ graphs ⟨rfl, time, rfl⟩
  apply (makes_rateNode ⟨row, .ofBoost (wall time)⟩).weaken
  rintro rated _ ⟨rfl, hrated⟩
  refine ⟨row, time, hrow, hrated, ?_⟩
  show _ = Write.applyEachAt (((Call.boostNode id).ratings _ _).map Rating.write) tenant graphs
  rw [Call.ratings_boostNode hrow]
  rfl

theorem makes_boostEdgeRow (key : EdgeKey) :
    Makes wall graphs (boostEdgeRow tenant key) fun rated graphs' => ∃ row time,
      (graphs tenant).edges[key]? = some row ∧
        ((RelevanceUpdate.ofBoost (wall time)).plan row).2 = rated ∧
        graphs' = Write.applyEachAt ((Call.boostEdge key).updates (wall time) (graphs tenant))
          tenant graphs := by
  apply (makes_reading .edge (·.edge? key)).step.bind
  rintro row graphs ⟨rfl, v, hv, hrow⟩
  rw [View.edge?_eq_settled, hv] at hrow
  cases row with
  | none => exact .throw _
  | some row =>
      apply makes_now.bind
      rintro _ graphs ⟨rfl, time, rfl⟩
      have hupdate : Makes wall graphs
          (TxAction.updateEdge tenant key ((RelevanceUpdate.ofBoost (wall time)).plan row).1) _ :=
        makes_writing .updateEdge (.updateEdge key _) .found fun _ _ => rfl
      apply hupdate.step.bind
      rintro present _ ⟨rfl, _⟩
      cases present with
      | false => exact .throw _
      | true =>
          refine .pure ⟨row, time, hrow, rfl, ?_⟩
          rw [Call.updates, hrow]
          rfl

theorem makes_succeed {old new : String} (hne : old ≠ new) :
    Makes wall graphs (succeed tenant old new) fun rated graphs' => ∃ row successor time,
      (graphs tenant).nodes[old]? = some row ∧ (graphs tenant).nodes[new]? = some successor ∧
        Rating.rated ⟨row, .ofSuccessor (wall time) new⟩ = rated ∧
        graphs' = Write.applyEachAt
          ((Call.supersedeNode old new).updates (wall time) (graphs tenant)) tenant graphs := by
  apply (makes_requireRow old).bind
  rintro oldRow graphs ⟨rfl, hold⟩
  apply (makes_requireRow new).bind
  rintro newRow graphs ⟨rfl, hnew⟩
  apply makes_now.bind
  rintro _ graphs ⟨rfl, time, rfl⟩
  apply (makes_rateNode ⟨oldRow, .ofSuccessor (wall time) new⟩).bind
  rintro rated _ ⟨rfl, hrated⟩
  apply (makes_rateNode ⟨newRow, .unscored (wall time)⟩).bind
  rintro _ _ ⟨rfl, _⟩
  refine .pure ⟨oldRow, newRow, time, hold, hnew, hrated, ?_⟩
  show _ = Write.applyEachAt (((Call.supersedeNode old new).ratings _ _).map Rating.write) tenant
    graphs
  rw [Call.ratings_supersedeNode hne hold hnew]
  rfl

theorem makes_count (ids : List String) :
    Makes wall graphs (count tenant (distinct ids)) fun rated graphs' => ∃ time,
      ((Call.recordAccess ids).ratings (wall time) (graphs tenant)).map Rating.rated = rated ∧
        graphs' = Write.applyEachAt ((Call.recordAccess ids).updates (wall time) (graphs tenant))
          tenant graphs := by
  apply (makes_reading .nodes fun v => v.nodesOf (distinct ids) (distinct ids).length).step.bind
  rintro rows graphs ⟨rfl, v, hv, hrows⟩
  have hfound : rows = (distinct ids).filterMap ((graphs tenant).nodes[·]?) := by
    rw [← hrows, View.nodesOf_distinct, ← hv]
    exact congrArg (List.filterMap · _) (funext v.node?_eq_settled)
  apply makes_now.bind
  rintro _ graphs ⟨rfl, time, rfl⟩
  have hrate : ∀ (row : SealedNode) (rest : List SealedNode) (graphs : Tenant → Tables), True →
      Makes wall graphs (rateNode tenant row (.ofAccess (wall time))) fun rated graphs' =>
        graphs' = Write.applyEachAt [Rating.write ⟨row, .ofAccess (wall time)⟩] tenant graphs ∧
          Rating.rated ⟨row, .ofAccess (wall time)⟩ = rated ∧ True := by
    intro row _ graphs _
    apply (makes_rateNode ⟨row, .ofAccess (wall time)⟩).weaken
    exact fun _ _ h => ⟨h.1, h.2, trivial⟩
  apply (makes_mapM (fun _ _ => True) hrate rows graphs trivial).weaken
  rintro rated _ ⟨rfl, rfl⟩
  refine ⟨time, ?_, ?_⟩
  · rw [Call.ratings, ← hfound, List.map_map]
    rfl
  · show _ = Write.applyEachAt (((Call.recordAccess ids).ratings _ _).map Rating.write) tenant
      graphs
    rw [Call.ratings, ← hfound, List.map_map, List.map_eq_flatMap]
    rfl

/-! ### Creating and removing -/

theorem makes_sealPayload (e : Engine) (properties : Properties) :
    Makes wall graphs (Action.inTransaction (e.sealPayload tenant properties)) fun payload graphs' =>
      graphs' = graphs ∧ e.Seals tenant properties payload := by
  have hstill := (editable_stillness tenant).sealPayload e tenant properties
  intro scope s hs payload t hrun
  obtain ⟨graphs', hsame, ht⟩ := makes_still hstill scope s hs payload t hrun
  refine ⟨graphs', ⟨hsame, ?_⟩, ht⟩
  unfold Action.inTransaction at hrun
  cases hact : e.sealPayload tenant properties scope s.world with
  | error f w =>
      rw [hact] at hrun
      cases hrun
  | ok sealed w =>
      rw [hact] at hrun
      cases hrun
      obtain ⟨draw, u, _, hrest⟩ := exists_of_bind_eq_ok hact
      obtain ⟨bytes, u', hbytes, hdone⟩ := exists_of_bind_eq_ok hrest
      cases hdone
      refine ⟨draw, ?_⟩
      dsimp only
      cases hencrypt : e.cipher.encrypt (e.nonce draw) tenant
          (Bytes.ofString (Json.ofProperties properties).render) with
      | error f =>
          rw [hencrypt] at hbytes
          cases hbytes
      | ok sealed =>
          rw [hencrypt] at hbytes
          cases hbytes
          rfl

theorem makes_putNode (e : Engine) (node : OpenNode) :
    Makes wall graphs (e.putNode tenant node) fun rated graphs' =>
      checkNode node = .ok () ∧ ∃ time payload, e.Seals tenant node.properties payload ∧
        rated = node.mapRelevance (·.scoredAt (wall time)) ∧
        graphs' = (Write.putNode (rated.withProperties payload)).applyAt tenant graphs := by
  apply (makes_ofOutcome (checkNode node)).bind
  rintro _ graphs ⟨rfl, hchecked⟩
  apply makes_now.bind
  rintro _ graphs ⟨rfl, time, rfl⟩
  apply (makes_sealPayload e _).bind
  rintro payload graphs ⟨rfl, hsealed⟩
  apply (makes_writing .putNode _ _ (Write.stagedBy_putNode tenant _)).bind
  rintro _ _ ⟨rfl, _⟩
  exact .pure ⟨hchecked, time, payload, hsealed, rfl, rfl⟩

theorem makes_checkEnd (id : String) :
    Makes wall graphs (checkEnd tenant id) fun _ graphs' => graphs' = graphs := by
  apply (makes_hasNode id).bind
  rintro present graphs ⟨rfl, _⟩
  cases present with
  | false => exact .throw _
  | true => exact .pure rfl

theorem makes_putEdge (e : Engine) (edge : OpenEdge) :
    Makes wall graphs (e.putEdge tenant edge) fun rated graphs' => ∃ time payload,
      e.Seals tenant edge.properties payload ∧ rated = edge.mapRelevance (·.scoredAt (wall time)) ∧
        graphs' = (Write.putEdge (rated.withProperties payload)).applyAt tenant graphs := by
  apply (makes_ofOutcome (checkEdge edge)).bind
  rintro _ graphs ⟨rfl, _⟩
  apply (makes_checkEnd edge.source).bind
  rintro _ graphs rfl
  apply (makes_checkEnd edge.target).bind
  rintro _ graphs rfl
  apply makes_now.bind
  rintro _ graphs ⟨rfl, time, rfl⟩
  apply (makes_sealPayload e _).bind
  rintro payload graphs ⟨rfl, hsealed⟩
  apply (makes_writing .putEdge _ _ (Write.stagedBy_putEdge tenant _)).bind
  rintro _ _ ⟨rfl, _⟩
  exact .pure ⟨time, payload, hsealed, rfl, rfl⟩

theorem makes_deleteEdge (key : EdgeKey) :
    Makes wall graphs (TxAction.deleteEdge tenant key) fun present graphs' =>
      graphs' = (Write.deleteEdge key).applyAt tenant graphs ∧
        Write.Answer.found present = (Write.deleteEdge key).answer (graphs tenant) :=
  makes_writing .deleteEdge (.deleteEdge key) .found fun _ _ => rfl

theorem makes_deleteNode (id : String) :
    Makes wall graphs (deleteNode tenant id) fun _ graphs' =>
      graphs' = Write.applyEachAt [.deleteEdgesTouching id, .deleteNode id] tenant graphs := by
  have hedges : Makes wall graphs (TxAction.deleteEdgesTouching tenant id) _ :=
    makes_writing .deleteEdgesTouching (.deleteEdgesTouching id) .removed fun _ _ => rfl
  apply hedges.bind
  rintro _ _ ⟨rfl, _⟩
  have hnode : ∀ graphs : Tenant → Tables, Makes wall graphs (TxAction.deleteNode tenant id) _ :=
    fun graphs => makes_writing .deleteNode (.deleteNode id) .found fun _ _ => rfl
  apply (hnode _).weaken
  rintro _ _ ⟨rfl, _⟩
  rfl

/-! ### Sweeps -/

/-- A node that is there as it was found is written just if its score has changed. -/
theorem makes_refresh {now : Timestamp} {row : SealedNode}
    (hrow : (graphs tenant).nodes[row.id]? = some row) :
    Makes wall graphs (refresh tenant now row) fun changed graphs' =>
      graphs' = Write.applyEachAt ((Rating.stale now [row]).map Rating.write) tenant graphs ∧
        (row.relevance.refreshed? now).isSome = changed := by
  rw [Rating.stale_singleton]
  unfold refresh
  cases hfresh : row.relevance.refreshed? now with
  | none => exact .pure ⟨rfl, rfl⟩
  | some fresh =>
      rw [Relevance.eq_scoredAt_of_refreshed? hfresh]
      have hupdate : Makes wall graphs (TxAction.updateNode tenant row.id _) _ :=
        makes_writing .updateNode (Rating.write ⟨row, .unscored now⟩) .found fun _ _ => rfl
      apply hupdate.step.weaken
      rintro present _ ⟨rfl, hpresent⟩
      have hthere : (graphs tenant).nodes.contains row.id = true := by
        rw [Std.ExtTreeMap.contains_eq_isSome_getElem?, hrow]
        rfl
      exact ⟨rfl, ((Write.Answer.found.inj hpresent).trans hthere).symm⟩

/-- Whatever becomes of one of several different nodes, the others still fit the graphs. -/
theorem makes_refresh_of_fit {now : Timestamp} {row : SealedNode} {rest : List SealedNode}
    (hfit : Rating.Fit (graphs tenant) ((row :: rest).map (⟨·, .unscored now⟩))) :
    Makes wall graphs (refresh tenant now row) fun changed graphs' =>
      graphs' = Write.applyEachAt ((Rating.stale now [row]).map Rating.write) tenant graphs ∧
        (row.relevance.refreshed? now).isSome = changed ∧
        Rating.Fit (graphs' tenant) (rest.map (⟨·, .unscored now⟩)) := by
  apply (makes_refresh (hfit.found _ List.mem_cons_self)).weaken
  rintro changed _ ⟨rfl, hchanged⟩
  refine ⟨rfl, hchanged, ?_⟩
  rw [Write.applyEachAt_self]
  exact hfit.tail_of_stale

/-- The time, and what the calendar shows at it. -/
def dated : TxAction (Nat × Timestamp) := fun _ s =>
  .ok (s.world.clock, s.world.wall s.world.clock) s

theorem makes_dated :
    Makes wall graphs dated fun date graphs' => graphs' = graphs ∧ wall date.1 = date.2 := by
  intro scope s hs date t hrun
  cases hrun
  exact ⟨graphs, ⟨rfl, by rw [← hs.wall]⟩, hs⟩

/-- A batch that tells as well at what time it has rated its nodes. -/
def batchDated (e : Engine) (tenant : Tenant) (cursor : Option String) :
    TxAction (Batch × Nat) := do
  let rows ← TxAction.step (TxAction.nodesAfter tenant cursor e.batchSize)
  let (time, now) ← dated
  let changes ← rows.mapM (refresh tenant now)
  return (⟨rows.map (·.id), changes.countP id⟩, time)

theorem batch_eq_map_batchDated (e : Engine) (tenant : Tenant) (cursor : Option String) :
    e.batch tenant cursor = (·.1) <$> e.batchDated tenant cursor := by
  unfold batch batchDated
  simp only [map_bind, map_pure]
  rfl

theorem makes_batchDated (e : Engine) (cursor : Option String) :
    Makes wall graphs (e.batchDated tenant cursor) fun done graphs' =>
      let rows := (graphs tenant).view.nodesAfter cursor e.batchSize
      done.1 = ⟨rows.map Node.id, (Rating.stale (wall done.2) rows).length⟩ ∧
        graphs' = Write.applyEachAt ((Rating.stale (wall done.2) rows).map Rating.write) tenant
          graphs := by
  apply Makes.of_wellKeyed
  intro hkeyed
  apply (makes_reading .nodesAfter (·.nodesAfter cursor e.batchSize)).step.bind
  rintro rows graphs ⟨rfl, v, hv, hrows⟩
  have hlisted : (graphs tenant).view.nodesAfter cursor e.batchSize = rows := by
    rw [← hrows, ← hv]
    symm
    apply v.alike_settled.nodesAfter_eq
    rw [hv]
    exact hkeyed tenant
  apply makes_dated.bind
  rintro ⟨time, now⟩ graphs ⟨rfl, hnow⟩
  obtain rfl : wall time = now := hnow
  have hfits : Rating.Fit (graphs tenant) (rows.map (⟨·, .unscored (wall time)⟩)) := by
    rw [← hlisted]
    exact (hkeyed tenant).fit_nodesAfter _ cursor _
  apply (makes_mapM
    (fun rows graphs => Rating.Fit (graphs tenant) (rows.map (⟨·, .unscored (wall time)⟩)))
    (fun _ _ _ => makes_refresh_of_fit) rows graphs hfits).bind
  rintro _ _ ⟨rfl, rfl⟩
  refine .pure ⟨?_, ?_⟩
  · rw [hlisted, List.countP_map, Rating.stale, List.length_map, ← List.countP_eq_length_filter]
    rfl
  · rw [hlisted, Rating.flatMap_stale]

theorem makes_batch (e : Engine) (cursor : Option String) :
    Makes wall graphs (e.batch tenant cursor) fun done graphs' => ∃ time,
      let rows := (graphs tenant).view.nodesAfter cursor e.batchSize
      done = ⟨rows.map Node.id, (Rating.stale (wall time) rows).length⟩ ∧
        graphs' = Write.applyEachAt ((Rating.stale (wall time) rows).map Rating.write) tenant
          graphs := by
  rw [batch_eq_map_batchDated, map_eq_pure_bind]
  apply (makes_batchDated e cursor).bind
  exact fun done graphs' h => .pure ⟨done.2, h⟩

end Engine
end SalientGraph
