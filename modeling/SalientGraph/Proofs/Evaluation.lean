import SalientGraph.Proofs.Answering
import SalientGraph.Proofs.Script
import SalientGraph.Proofs.Transitions

/-!
# Scripts at rest

While nobody else uses the store, no request fails or takes any time, and the calendar
stays where it is, what a script comes to depends on the graphs alone. It is evaluated
here without a world, and a transaction that runs the script comes to just that.
-/

namespace SalientGraph

variable {α β : Type} {scope : Scope} {now : Timestamp} {graphs : Tenant → Tables}
  {tenant : Tenant}

/-- Nobody else uses the store, no request fails or takes any time, the scope is not over, and it is
a certain day. -/
structure World.Rests (scope : Scope) (now : Timestamp) (w : World) : Prop where
  calm : w.Calm scope
  alone : w.conditions.others = []
  today : w.wall w.clock = now

/-- The world is at rest, and these graphs are to be seen in a transaction for writing. -/
structure Session.Rests (scope : Scope) (now : Timestamp) (graphs : Tenant → Tables)
    (s : Session) : Prop where
  world : s.world.Rests scope now
  holds : s.world.store.Holds s.tx graphs

/-! ## Requests at rest -/

/-- At rest, a request does nothing but count. -/
theorem Action.request_of_rests {w : World} (h : w.Rests scope now) (r : Request) (other : Scope) :
    request r other w = .ok () { w with served := w.served + 1 } := by
  rw [request_of_calm h.calm, Conditions.meanwhile_of_others_eq_nil h.alone]

theorem World.Rests.served {w : World} (h : w.Rests scope now) (n : Nat) (store : Store) :
    World.Rests scope now { w with served := n, store := store } :=
  ⟨⟨h.calm.failure, h.calm.delay, h.calm.live⟩, h.alone, h.today⟩

namespace TxAction

variable {s : Session}

theorem check_of_rests (h : s.Rests scope now graphs) :
    Action.inTransaction Action.check scope s = .ok () s := by
  unfold Action.inTransaction Action.check
  rw [h.world.calm.live]

/-- What is read at rest is answered from a view of the graphs. -/
theorem reading_of_rests (h : s.Rests scope now graphs) (r : Request) (tenant : Tenant)
    (answer : View → α) :
    ∃ t, reading r tenant answer scope s = .ok (answer (t.view tenant)) t ∧
      t.Rests scope now graphs := by
  have hrequest : Action.inTransaction (Action.request r) scope s =
      .ok () { s with world := { s.world with served := s.world.served + 1 } } := by
    unfold Action.inTransaction
    rw [Action.request_of_rests h.world]
  exact ⟨_, bind_apply_of_ok hrequest, h.world.served _ _, h.holds⟩

/-- A write at rest is answered from the graphs and makes of them what it would directly. -/
theorem writing_of_rests (h : s.Rests scope now graphs) (r : Request) (tenant : Tenant) (w : Write) :
    ∃ t, writing r (fun store tx => w.stage store tx tenant) scope s =
        .ok (w.answer (graphs tenant)) t ∧
      t.Rests scope now (w.applyAt tenant graphs) := by
  have hrequest : Action.inTransaction (Action.request r) scope s =
      .ok () { s with world := { s.world with served := s.world.served + 1 } } := by
    unfold Action.inTransaction
    rw [Action.request_of_rests h.world]
  obtain ⟨tx, hstage, hholds⟩ := h.holds.stage w tenant
  refine ⟨⟨{ s.world with served := s.world.served + 1 }, tx⟩, ?_, h.world.served _ _, hholds⟩
  apply (bind_apply_of_ok hrequest).trans
  unfold stage
  dsimp only
  rw [hstage]

end TxAction

/-! ## Evaluating scripts -/

namespace Script

/-- What a script comes to at `now` where these graphs are to be seen: its answer with the graphs
that it makes of them, or a fault. -/
def eval (now : Timestamp) :
    Script α → (Tenant → Tables) → Except Fault (α × (Tenant → Tables))
  | answer a, graphs => .ok (a, graphs)
  | refuse f, _ => .error f
  | check rest, graphs => rest.eval now graphs
  | today rest, graphs => (rest now).eval now graphs
  | read _ tenant rest, graphs => (rest (graphs tenant).view).eval now graphs
  | write tenant w rest, graphs =>
    (rest (w.answer (graphs tenant))).eval now (w.applyAt tenant graphs)

/-- How the script goes on after reading does not depend on what is staged and what is committed of
the graph that it reads. -/
def Settled : Script α → Prop
  | answer _ => True
  | refuse _ => True
  | check rest => rest.Settled
  | today rest => ∀ t, (rest t).Settled
  | read _ _ rest =>
    (∀ v : View, v.settled.WellKeyed → rest v = rest v.settled.view) ∧ ∀ v, (rest v).Settled
  | write _ _ rest => ∀ a, (rest a).Settled

theorem Settled.bind {p : Script α} {next : α → Script β} (hp : p.Settled)
    (hnext : ∀ a, (next a).Settled) : (p >>= next).Settled := by
  induction p with
  | answer a => exact hnext a
  | refuse f => trivial
  | check rest ih => exact ih hp
  | today rest ih => exact fun t => ih t (hp t)
  | read r tenant rest ih =>
      refine ⟨?_, fun v => ih v (hp.2 v)⟩
      intro v hv
      exact congrArg (Script.bind · next) (hp.1 v hv)
  | write tenant w rest ih => exact fun a => ih a (hp a)

theorem Settled.mapM {f : α → Script β} (h : ∀ a, (f a).Settled) (xs : List α) :
    (xs.mapM f).Settled := by
  induction xs with
  | nil => trivial
  | cons x xs ih =>
      rw [List.mapM_cons]
      exact (h x).bind fun _ => ih.bind fun _ => trivial

theorem eval_bind (p : Script α) (next : α → Script β) : ∀ graphs : Tenant → Tables,
    (p >>= next).eval now graphs =
      p.eval now graphs >>= fun r => (next r.1).eval now r.2 := by
  induction p with
  | answer a => exact fun _ => rfl
  | refuse f => exact fun _ => rfl
  | check rest ih => exact ih
  | today rest ih => exact ih now
  | read r tenant rest ih => exact fun graphs => ih _ graphs
  | write tenant w rest ih => exact fun graphs => ih _ _

/-- A run has come to what the script was evaluated to. -/
def ComesTo (scope : Scope) (now : Timestamp) :
    Except Fault (α × (Tenant → Tables)) → EStateM.Result Fault Session α → Prop
  | .ok (a, graphs), .ok b t => b = a ∧ t.Rests scope now graphs
  | .error f, .error g t => g = f ∧ t.world.Rests scope now
  | _, _ => False

/-- At rest, a script comes to what it is evaluated to. -/
theorem run_comesTo {p : Script α} (hp : p.Settled) :
    ∀ {graphs : Tenant → Tables} {s : Session}, s.Rests scope now graphs →
      ComesTo scope now (p.eval now graphs) (p.run scope s) := by
  induction p with
  | answer a => exact fun hs => ⟨rfl, hs⟩
  | refuse f => exact fun hs => ⟨rfl, hs.world⟩
  | check rest ih =>
      intro graphs s hs
      have hrun : (check rest).run scope s = rest.run scope s :=
        bind_apply_of_ok (TxAction.check_of_rests hs)
      rw [hrun]
      exact ih hp hs
  | today rest ih =>
      intro graphs s hs
      have hrun : (today rest).run scope s = (rest now).run scope s := by
        rw [← hs.world.today]
        rfl
      rw [hrun]
      exact ih now (hp now) hs
  | read r tenant rest ih =>
      intro graphs s hs
      obtain ⟨t, hread, ht⟩ := TxAction.reading_of_rests hs r tenant id
      have hrun : (read r tenant rest).run scope s = (rest (t.view tenant)).run scope t :=
        bind_apply_of_ok hread
      have hview : (t.view tenant).settled = graphs tenant := ht.holds.settled tenant
      have hsame : rest (t.view tenant) = rest (graphs tenant).view := by
        rw [hp.1 (t.view tenant), hview]
        rw [hview]
        exact ht.holds.wellKeyed tenant
      rw [hrun, hsame]
      exact ih _ (hp.2 _) ht
  | write tenant w rest ih =>
      intro graphs s hs
      obtain ⟨t, hwrite, ht⟩ := TxAction.writing_of_rests hs w.request tenant w
      have hrun : (write tenant w rest).run scope s =
          (rest (w.answer (graphs tenant))).run scope t :=
        bind_apply_of_ok hwrite
      rw [hrun]
      exact ih _ (hp _) ht

end Script

/-! ## Transactions at rest -/

namespace Action

/-- At rest, a transaction that runs a script commits the graphs that it is evaluated to, or fails
as it does and leaves the world still. -/
theorem transact_of_rests {p : Script α} (hp : p.Settled) (hstill : Session.stillness.Obeys p.run)
    {w : World} (hw : w.Rests scope now) (hkeyed : w.store.WellKeyed) :
    match p.eval now w.store.tablesOf with
    | .ok (a, graphs) => ∃ u, transact .readWrite p.run scope w = .ok a u ∧
      w.Becomes graphs [] u ∧ u.Rests scope now
    | .error f => ∃ u, transact .readWrite p.run scope w = .error f u ∧ w.Still u := by
  have hcheck : check scope w = .ok () w := by
    unfold check
    rw [hw.calm.live]
  have hbegin : begin .readWrite scope w = .ok (w.store.begin .readWrite).1
      { w with served := w.served + 1, store := (w.store.begin .readWrite).2 } :=
    bind_apply_of_ok (request_of_rests hw .begin scope)
  have hbegun := begun_of_begin hbegin
  have hrests : Session.Rests scope now w.store.tablesOf
      ⟨{ w with served := w.served + 1, store := (w.store.begin .readWrite).2 },
        (w.store.begin .readWrite).1⟩ :=
    ⟨hw.served _ _, Store.holds_begin hkeyed⟩
  have hcomes := Script.run_comesTo hp hrests
  have hkept := hstill.keeps scope
    ⟨{ w with served := w.served + 1, store := (w.store.begin .readWrite).2 },
      (w.store.begin .readWrite).1⟩
  unfold transact
  rw [bind_of_ok hcheck, bind_of_ok hbegin]
  cases hs : p.run scope ⟨{ w with served := w.served + 1, store := (w.store.begin .readWrite).2 },
      (w.store.begin .readWrite).1⟩ with
  | error f t =>
      rw [hs] at hcomes hkept
      rw [bind_of_ok (session_of_error hs)]
      obtain ⟨u, hsettle, hu⟩ := settle_of_error (α := α) t.tx f scope t.world
      cases heval : p.eval now w.store.tablesOf with
      | ok r =>
          rw [heval] at hcomes
          exact hcomes.elim
      | error g =>
          rw [heval] at hcomes
          obtain ⟨rfl, _⟩ := hcomes
          exact ⟨u, hsettle, (hbegun.still.trans hkept.world).trans hu⟩
  | ok a t =>
      rw [hs] at hcomes hkept
      rw [bind_of_ok (session_of_ok hs)]
      cases heval : p.eval now w.store.tablesOf with
      | error g =>
          rw [heval] at hcomes
          exact hcomes.elim
      | ok r =>
          rw [heval] at hcomes
          obtain ⟨rfl, ht⟩ := hcomes
          have hcommit : uninterrupted (commit t.tx) scope t.world = .ok () _ :=
            bind_of_ok (request_of_rests ht.world .commit .unbounded)
          have hsame : w.Still t.world := hbegun.still.trans hkept.world
          refine ⟨_, bind_of_ok hcommit, ⟨hsame.conditions, hsame.wall, ?_, hsame.holder, ?_, ?_⟩,
            ht.world.served _ _⟩
          · rw [List.append_nil]
            exact hsame.announced
          · exact fun tenant => ht.holds.tablesOf_commit tenant
          · intro tenant
            show ((t.world.store.commit t.tx).tablesOf tenant).WellKeyed
            rw [ht.holds.tablesOf_commit tenant]
            exact ht.holds.wellKeyed tenant

end Action

/-! ## The scripts of the engine -/

namespace Script

/-! ### They read what is settled -/

theorem settled_read (r : Request) (tenant : Tenant) {f : View → α}
    (h : ∀ v : View, v.settled.WellKeyed → f v = f v.settled.view) :
    (read r tenant fun v => answer (f v)).Settled :=
  ⟨fun v hv => congrArg answer (h v hv), fun _ => trivial⟩

theorem settled_writeFound (tenant : Tenant) (w : Write) : (writeFound tenant w).Settled := by
  intro a
  cases a <;> trivial

theorem settled_requireRow (tenant : Tenant) (id : String) : (requireRow tenant id).Settled := by
  have hread : (step (node? tenant id)).Settled :=
    settled_read .node tenant fun v _ => by rw [View.node?_eq_settled, View.node?_view]
  apply hread.bind
  intro row
  cases row <;> trivial

theorem settled_rateNode (tenant : Tenant) (row : SealedNode) (u : RelevanceUpdate) :
    (rateNode tenant row u).Settled := by
  have hwrite : (step (writeFound tenant (.updateNode row.id (u.plan row).1))).Settled :=
    settled_writeFound tenant (.updateNode row.id (u.plan row).1)
  apply hwrite.bind
  intro present
  cases present <;> trivial

theorem settled_now : Script.now.Settled :=
  fun _ => trivial

theorem settled_boostNode (tenant : Tenant) (id : String) : (boostNode tenant id).Settled :=
  (settled_requireRow tenant id).bind fun row =>
    settled_now.bind fun _ => settled_rateNode tenant row _

theorem settled_boostEdge (tenant : Tenant) (key : EdgeKey) : (boostEdge tenant key).Settled := by
  have hread : (step (edge? tenant key)).Settled :=
    settled_read .edge tenant fun v _ => by rw [View.edge?_eq_settled, View.edge?_view]
  apply hread.bind
  intro row
  cases row with
  | none => trivial
  | some row =>
      apply settled_now.bind
      intro now
      have hwrite : ∀ u, (step (writeFound tenant (.updateEdge key u))).Settled :=
        fun u => settled_writeFound tenant (.updateEdge key u)
      apply (hwrite _).bind
      intro present
      cases present <;> trivial

theorem settled_succeed (tenant : Tenant) (old new : String) : (succeed tenant old new).Settled :=
  (settled_requireRow tenant old).bind fun oldRow =>
    (settled_requireRow tenant new).bind fun newRow => settled_now.bind fun _ =>
      (settled_rateNode tenant oldRow _).bind fun _ =>
        (settled_rateNode tenant newRow _).bind fun _ => trivial

theorem settled_count (tenant : Tenant) (ids : List String) : (count tenant ids).Settled := by
  have hread : (step (nodes tenant ids)).Settled := by
    apply settled_read .nodes tenant
    intro v _
    have hfind : v.node? = v.settled.view.node? :=
      funext fun id => by rw [View.node?_eq_settled, View.node?_view]
    rw [View.nodesOf, hfind]
    rfl
  exact hread.bind fun rows => settled_now.bind fun _ =>
    .mapM (fun row => settled_rateNode tenant row _) rows

theorem settled_refresh (tenant : Tenant) (now : Timestamp) (row : SealedNode) :
    (refresh tenant now row).Settled := by
  unfold refresh
  cases row.relevance.refreshed? now with
  | none => trivial
  | some fresh =>
      exact settled_writeFound tenant (.updateNode row.id (.ofScore fresh.salience now))

theorem settled_batch (e : Engine) (tenant : Tenant) (cursor : Option String) :
    (batch e tenant cursor).Settled := by
  have hread : (step (nodesAfter tenant cursor e.batchSize)).Settled :=
    settled_read .nodesAfter tenant fun v hv => v.alike_settled.nodesAfter_eq hv cursor _
  exact hread.bind fun rows => settled_now.bind fun now =>
    (Settled.mapM (settled_refresh tenant now) rows).bind fun _ => trivial

/-! ### What they are evaluated to -/

/-- What is evaluated for each element of a list in turn, as long as the elements to come still fit
the graphs. -/
theorem eval_mapM {f : α → Script β} (tenant : Tenant) (given : α → β) (writes : α → List Write)
    (fits : List α → (Tenant → Tables) → Prop)
    (h : ∀ a rest graphs, fits (a :: rest) graphs →
      (f a).eval now graphs = .ok (given a, Write.applyEachAt (writes a) tenant graphs) ∧
        fits rest (Write.applyEachAt (writes a) tenant graphs)) (xs : List α) :
    ∀ graphs, fits xs graphs → (xs.mapM f).eval now graphs =
      .ok (xs.map given, Write.applyEachAt (xs.flatMap writes) tenant graphs) := by
  induction xs with
  | nil => exact fun _ _ => rfl
  | cons x xs ih =>
      intro graphs hfits
      obtain ⟨hfirst, hrest⟩ := h x xs graphs hfits
      rw [List.mapM_cons, eval_bind, hfirst]
      show ((xs.mapM f) >>= fun bs => answer (given x :: bs)).eval now _ = _
      rw [eval_bind, ih _ hrest, List.flatMap_cons, Write.applyEachAt_append]
      rfl

/-- Looking a node up finds its row. -/
theorem eval_node? (id : String) :
    (step (node? tenant id)).eval now graphs = .ok ((graphs tenant).nodes[id]?, graphs) := by
  show Except.ok ((graphs tenant).view.node? id, graphs) = _
  rw [View.node?_view]

/-- Looking an edge up finds its row. -/
theorem eval_edge? (key : EdgeKey) :
    (step (edge? tenant key)).eval now graphs = .ok ((graphs tenant).edges[key]?, graphs) := by
  show Except.ok ((graphs tenant).view.edge? key, graphs) = _
  rw [View.edge?_view]

theorem eval_requireRow_of_some {id : String} {row : SealedNode}
    (h : (graphs tenant).nodes[id]? = some row) :
    (requireRow tenant id).eval now graphs = .ok (row, graphs) := by
  unfold requireRow
  rw [eval_bind, eval_node?, h]
  rfl

theorem eval_requireRow_of_none {id : String} (h : (graphs tenant).nodes[id]? = none) :
    (requireRow tenant id).eval now graphs = .error (.notFound ("node " ++ id)) := by
  unfold requireRow
  rw [eval_bind, eval_node?, h]
  rfl

/-- A rating of a node that is there is written and given back. -/
theorem eval_rateNode (r : Rating) (h : (graphs tenant).nodes[r.row.id]? = some r.row) :
    (rateNode tenant r.row r.update).eval now graphs =
      .ok (r.rated, Write.applyEachAt [r.write] tenant graphs) := by
  have hthere : (graphs tenant).nodes.contains r.row.id = true := by
    rw [Std.ExtTreeMap.contains_eq_isSome_getElem?, h]
    rfl
  unfold rateNode
  dsimp only
  rw [eval_bind]
  show Script.eval now (if (graphs tenant).nodes.contains r.row.id then pure r.rated
    else refuse _) (r.write.applyAt tenant graphs) = _
  rw [hthere]
  rfl

/-- A boost of a node that is there. -/
theorem eval_boostNode_of_some {id : String} {row : SealedNode}
    (hrow : (graphs tenant).nodes[id]? = some row) (hkeyed : (graphs tenant).WellKeyed) :
    (boostNode tenant id).eval now graphs =
      .ok (Rating.rated ⟨row, .ofBoost now⟩,
        Write.applyEachAt ((Call.boostNode id).updates now (graphs tenant)) tenant graphs) := by
  have hfound : (graphs tenant).nodes[row.id]? = some row := by
    rw [hkeyed.nodes hrow]
    exact hrow
  unfold boostNode
  rw [eval_bind, eval_requireRow_of_some hrow]
  show (rateNode tenant row (.ofBoost now)).eval now graphs = _
  rw [eval_rateNode ⟨row, .ofBoost now⟩ hfound, Call.updates, Call.ratings_boostNode hrow]
  · rfl
  · rintro _ h
    cases h

theorem eval_boostNode_of_none {id : String} (h : (graphs tenant).nodes[id]? = none) :
    (boostNode tenant id).eval now graphs = .error (.notFound ("node " ++ id)) := by
  unfold boostNode
  rw [eval_bind, eval_requireRow_of_none h]
  rfl

/-- A boost of an edge that is there. -/
theorem eval_boostEdge_of_some {key : EdgeKey} {row : SealedEdge}
    (hrow : (graphs tenant).edges[key]? = some row) :
    (boostEdge tenant key).eval now graphs =
      .ok (((RelevanceUpdate.ofBoost now).plan row).2,
        Write.applyEachAt ((Call.boostEdge key).updates now (graphs tenant)) tenant graphs) := by
  have hthere : (graphs tenant).edges.contains key = true := by
    rw [Std.ExtTreeMap.contains_eq_isSome_getElem?, hrow]
    rfl
  unfold boostEdge
  rw [eval_bind, eval_edge?, hrow]
  show Script.eval now (if (graphs tenant).edges.contains key then
    pure ((RelevanceUpdate.ofBoost now).plan row).2 else refuse _) _ = _
  rw [hthere, Call.updates, hrow]
  rfl

theorem eval_boostEdge_of_none {key : EdgeKey} (h : (graphs tenant).edges[key]? = none) :
    (boostEdge tenant key).eval now graphs = .error (.notFound ("edge " ++ key.text)) := by
  unfold boostEdge
  rw [eval_bind, eval_edge?, h]
  rfl

/-- A node that is there is superseded by another one that is there. -/
theorem eval_succeed_of_some {old new : String} {oldRow newRow : SealedNode} (hne : old ≠ new)
    (hold : (graphs tenant).nodes[old]? = some oldRow)
    (hnew : (graphs tenant).nodes[new]? = some newRow) (hkeyed : (graphs tenant).WellKeyed) :
    (succeed tenant old new).eval now graphs =
      .ok (Rating.rated ⟨oldRow, .ofSuccessor now new⟩,
        Write.applyEachAt ((Call.supersedeNode old new).updates now (graphs tenant)) tenant
          graphs) := by
  have hratings : (Call.supersedeNode old new).ratings now (graphs tenant) = _ :=
    Call.ratings_supersedeNode hne hold hnew
  have hfit := hkeyed.fit_ratings now (.supersedeNode old new)
  rw [hratings] at hfit
  have hlater : (Write.applyEachAt [Rating.write ⟨oldRow, .ofSuccessor now new⟩] tenant graphs
      tenant).nodes[newRow.id]? = some newRow := by
    rw [Write.applyEachAt_self]
    exact hfit.tail.found _ List.mem_cons_self
  unfold succeed
  rw [eval_bind, eval_requireRow_of_some hold]
  show (requireRow tenant new >>= fun newRow => _).eval now graphs = _
  rw [eval_bind, eval_requireRow_of_some hnew]
  show (rateNode tenant oldRow (.ofSuccessor now new) >>= fun rated => _).eval now graphs = _
  rw [eval_bind, eval_rateNode ⟨oldRow, .ofSuccessor now new⟩ (hfit.found _ List.mem_cons_self)]
  show (rateNode tenant newRow (.unscored now) >>= fun _ => _).eval now _ = _
  rw [eval_bind, eval_rateNode ⟨newRow, .unscored now⟩ hlater]
  show _ = Except.ok (_, Write.applyEachAt
    (((Call.supersedeNode old new).ratings now (graphs tenant)).map Rating.write) tenant graphs)
  rw [hratings]
  rfl

theorem eval_succeed_of_old_none {old new : String} (h : (graphs tenant).nodes[old]? = none) :
    (succeed tenant old new).eval now graphs = .error (.notFound ("node " ++ old)) := by
  unfold succeed
  rw [eval_bind, eval_requireRow_of_none h]
  rfl

theorem eval_succeed_of_new_none {old new : String} {oldRow : SealedNode}
    (hold : (graphs tenant).nodes[old]? = some oldRow)
    (hnew : (graphs tenant).nodes[new]? = none) :
    (succeed tenant old new).eval now graphs = .error (.notFound ("node " ++ new)) := by
  unfold succeed
  rw [eval_bind, eval_requireRow_of_some hold]
  show (requireRow tenant new >>= fun newRow => _).eval now graphs = _
  rw [eval_bind, eval_requireRow_of_none hnew]
  rfl

/-- One access more to each of several nodes, as far as they are there. -/
theorem eval_count (ids : List String) (hkeyed : (graphs tenant).WellKeyed) :
    (count tenant (distinct ids)).eval now graphs =
      .ok (((Call.recordAccess ids).ratings now (graphs tenant)).map Rating.rated,
        Write.applyEachAt ((Call.recordAccess ids).updates now (graphs tenant)) tenant graphs) := by
  have hfind : (graphs tenant).view.node? = ((graphs tenant).nodes[·]?) :=
    funext fun id => View.node?_view _ id
  let rows := (distinct ids).filterMap ((graphs tenant).nodes[·]?)
  have hrows : (graphs tenant).view.nodesOf (distinct ids) (distinct ids).length = rows := by
    rw [View.nodesOf_distinct, hfind]
  unfold count
  rw [eval_bind]
  show Script.eval now
    (((graphs tenant).view.nodesOf (distinct ids) (distinct ids).length).mapM fun row =>
      rateNode tenant row (.ofAccess now)) graphs = _
  rw [hrows, eval_mapM tenant (fun row => Rating.rated ⟨row, .ofAccess now⟩)
    (fun row => [Rating.write ⟨row, .ofAccess now⟩])
    fun rows graphs => Rating.Fit (graphs tenant) (rows.map (⟨·, .ofAccess now⟩))]
  · rw [← List.map_eq_flatMap, Call.updates, Call.ratings, List.map_map, List.map_map]
    · rfl
    · rintro _ h
      cases h
  · intro row rest graphs hfit
    refine ⟨eval_rateNode ⟨row, .ofAccess now⟩ (hfit.found _ List.mem_cons_self), ?_⟩
    rw [Write.applyEachAt_self]
    exact hfit.tail
  · exact hkeyed.fit_filterMap (nodup_distinct ids) _

/-- A node that is there as it was found is written just if its score has changed. -/
theorem eval_refresh {row : SealedNode} (hrow : (graphs tenant).nodes[row.id]? = some row) :
    (refresh tenant now row).eval now graphs =
      .ok ((row.relevance.refreshed? now).isSome,
        Write.applyEachAt ((Rating.stale now [row]).map Rating.write) tenant graphs) := by
  rw [Rating.stale_singleton]
  unfold refresh
  cases hfresh : row.relevance.refreshed? now with
  | none => rfl
  | some fresh =>
      have hthere : (graphs tenant).nodes.contains row.id = true := by
        rw [Std.ExtTreeMap.contains_eq_isSome_getElem?, hrow]
        rfl
      rw [Relevance.eq_scoredAt_of_refreshed? hfresh]
      show Except.ok ((graphs tenant).nodes.contains row.id, _) = _
      rw [hthere]
      rfl

/-- The nodes of a page are rated anew as far as their scores have changed. -/
theorem eval_batch (e : Engine) (cursor : Option String) (hkeyed : (graphs tenant).WellKeyed) :
    let rows := (graphs tenant).view.nodesAfter cursor e.batchSize
    (batch e tenant cursor).eval now graphs =
      .ok (⟨rows.map Node.id, (rows.map fun row => (row.relevance.refreshed? now).isSome).countP id⟩,
        Write.applyEachAt ((Rating.stale now rows).map Rating.write) tenant graphs) := by
  intro rows
  have hfits : Rating.Fit (graphs tenant) (rows.map (⟨·, .unscored now⟩)) :=
    hkeyed.fit_nodesAfter _ cursor _
  unfold batch
  rw [eval_bind]
  show (rows.mapM (refresh tenant now) >>= fun changes =>
    (answer ⟨rows.map Node.id, changes.countP id⟩ : Script Engine.Batch)).eval now graphs = _
  rw [eval_bind, eval_mapM tenant (fun row => (row.relevance.refreshed? now).isSome)
    (fun row => (Rating.stale now [row]).map Rating.write)
    (fun rows graphs => Rating.Fit (graphs tenant) (rows.map (⟨·, .unscored now⟩))) ?_ rows graphs
    hfits, Rating.flatMap_stale]
  · rfl
  · intro row rest graphs hfit
    refine ⟨eval_refresh (hfit.found _ List.mem_cons_self), ?_⟩
    rw [Write.applyEachAt_self]
    exact hfit.tail_of_stale

end Script

end SalientGraph
