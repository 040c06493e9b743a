import SalientGraph.Proofs.Answering
import SalientGraph.Proofs.ConfinedEngine
import SalientGraph.Proofs.Presence
import SalientGraph.Proofs.Store.Pages

/-!
# Sweeps miss no node

A sweep reads one page of nodes per batch and goes on behind the last of them, while
others insert, replace and delete nodes as they please. Each page is read from the
graph as it is at that moment. No identifier comes twice all the same, since pages go
up, and a node that is there whenever a page is read comes once, since a page skips
nothing on its way.

That there are enough batches is due to the nodes that may turn up: they are finitely
many, and each full page leaves fewer of them behind its last one.
-/

namespace SalientGraph

/-! ## What a sweep looks at -/

/-- What a batch reads: the graph of the tenant as it is committed at that moment, and the nodes of
it that the batch looks at. -/
structure Look where
  tables : Tables
  ids : List String

namespace Engine

variable (e : Engine)

/-- The part of a batch that reads. -/
def read (tenant : Tenant) (cursor : Option String) : TxAction Look := do
  let rows ← TxAction.step (TxAction.nodesAfter tenant cursor e.batchSize)
  return ⟨(← TxAction.view tenant).tables, rows.map (·.id)⟩

/-- Begins as a batch does, and reads. -/
def look (tenant : Tenant) (cursor : Option String) : Action Look := do
  Action.check
  let tx ← Action.begin .readWrite
  let (seen, _) ← Action.session tx (e.read tenant cursor)
  Action.ofOutcome seen

/-- The looks of the batches of a sweep, as far as it gets. A batch that fails after it has looked
has looked all the same. -/
def looksFrom (tenant : Tenant) : Nat → Option String → Scope → World → List Look
  | 0, _, _, _ => []
  | more + 1, cursor, scope, w =>
    match e.look tenant cursor scope w with
    | .error _ _ => []
    | .ok seen _ =>
      match Action.transact .readWrite (e.batch tenant cursor) scope w with
      | .error _ _ => [seen]
      | .ok done v =>
        if done.ids.length < e.batchSize then [seen]
        else seen :: looksFrom tenant more done.ids.getLast? scope v

/-- The looks of a sweep that is asked for, none if it is refused. -/
def looks (tenant : Tenant) (scope : Scope) (w : World) : List Look :=
  match acquire tenant scope w with
  | .error _ _ => []
  | .ok _ w =>
    e.looksFrom tenant (w.store.nodeCount tenant + w.conditions.nodesWritten tenant + 1) none
      (scope.child w.clock e.config.sweep.deadlineMillis) w

end Engine

variable {tenant : Tenant} {sure ids : List String}

/-! ## What a batch keeps -/

namespace Engine

variable (e : Engine)

theorem among_refresh (now : Timestamp) (row : SealedNode) :
    Meets (refresh tenant now row) (Session.Among tenant sure ids)
      (fun _ => Session.Among tenant sure ids) (fun _ => Session.Among tenant sure ids) := by
  unfold refresh
  cases row.relevance.refreshed? now with
  | none => exact Meets.pure fun _ h => h
  | some fresh => exact Meets.step (fun _ _ h => h) (TxAction.among_updateNode row.id _)

theorem among_batch (cursor : Option String) :
    Meets (e.batch tenant cursor) (Session.Among tenant sure ids)
      (fun _ => Session.Among tenant sure ids) (fun _ => Session.Among tenant sure ids) := by
  apply (Meets.step (fun _ _ h => h)
    (Meets.reading _ (TxAction.among_request .nodesAfter))).bind
  intro rows
  apply (Meets.inTransaction fun _ _ _ h => h.2 : Meets (Action.inTransaction Action.now) _
    (fun _ => Session.Among tenant sure ids) (fun _ => Session.Among tenant sure ids)).bind
  intro now
  apply (Meets.mapM (among_refresh now) rows).bind
  exact fun _ => Meets.pure fun _ h => h

theorem among_transact_batch (cursor : Option String) :
    Meets (Action.transact .readWrite (e.batch tenant cursor)) (World.Among tenant sure ids)
      (fun _ => World.Among tenant sure ids) (fun _ => World.Among tenant sure ids) := by
  have hbody : Meets (e.batch tenant cursor) (Session.Among tenant sure ids)
      (fun _ => Session.Among tenant sure ids) (fun _ s => s.world.Among tenant sure ids) :=
    (among_batch e cursor).weaken (fun _ h => h) (fun _ _ h => h) fun _ _ h => h.world
  have hbegin : Meets (Action.begin .readWrite) (World.Among tenant sure ids)
      (fun tx w => Session.Among tenant sure ids ⟨w, tx⟩) (fun _ => World.Among tenant sure ids) :=
    (Action.among_begin .readWrite).weaken (fun _ h => h) (fun _ _ h => h.1) fun _ _ h => h
  exact Meets.transact (fun _ _ h => h) hbegin hbody (fun _ tx => Action.among_commit tx)
    fun _ => Action.among_request .rollback

end Engine

/-! ## What a look shows -/

/-- A look is a page of the keys of the graph that it is read from. -/
structure Look.Exact (sure ids : List String) (cursor : Option String) (size : Nat) (x : Look) :
    Prop where
  known : ∀ id, id ∈ x.tables.nodes → id ∈ ids
  kept : ∀ id ∈ sure, id ∈ x.tables.nodes
  paged : x.ids = page x.tables.nodes.keys cursor size

namespace Look.Exact

variable {cursor : Option String} {size : Nat} {x : Look}

theorem pairwise (h : x.Exact sure ids cursor size) : x.ids.Pairwise (· < ·) := by
  rw [h.paged]
  exact x.tables.pairwise_keys_nodes.sublist page_sublist

theorem after_cursor (h : x.Exact sure ids cursor size) {id : String} (hid : id ∈ x.ids) :
    isAfter cursor id = true := by
  rw [h.paged] at hid
  exact after_cursor_of_mem_page hid

theorem mem_ids (h : x.Exact sure ids cursor size) {id : String} (hid : id ∈ x.ids) : id ∈ ids := by
  rw [h.paged] at hid
  exact h.known id (Std.ExtTreeMap.mem_keys.1 (page_sublist.subset hid))

/-- A node behind the cursor is looked at, or the look is full and ends before it. -/
theorem mem_or_full (h : x.Exact sure ids cursor size) {id : String} (hid : id ∈ x.tables.nodes)
    (hafter : isAfter cursor id = true) :
    id ∈ x.ids ∨ x.ids.length = size ∧ ∀ other ∈ x.ids, other < id := by
  rw [h.paged]
  exact mem_page_or_full x.tables.pairwise_keys_nodes (Std.ExtTreeMap.mem_keys.2 hid) hafter

/-- A look that is not full shows all nodes behind the cursor. -/
theorem mem_of_short (h : x.Exact sure ids cursor size) (hshort : x.ids.length < size) {id : String}
    (hid : id ∈ x.tables.nodes) (hafter : isAfter cursor id = true) : id ∈ x.ids := by
  rcases h.mem_or_full hid hafter with hmem | ⟨hfull, _⟩
  · exact hmem
  · exact absurd hfull (Nat.ne_of_lt hshort)

/-- A full look has a last node, behind which the next one goes on. -/
theorem exists_last (h : x.Exact sure ids cursor size) (hsize : 1 ≤ size)
    (hfull : ¬ x.ids.length < size) :
    ∃ last, x.ids.getLast? = some last ∧ last ∈ x.ids ∧ ∀ id ∈ x.ids, id = last ∨ id < last := by
  cases hlast : x.ids.getLast? with
  | none =>
      have hnone : x.ids = [] := List.getLast?_eq_none_iff.1 hlast
      rw [hnone] at hfull
      exact absurd hsize hfull
  | some last =>
      exact ⟨last, rfl, List.mem_of_getLast? hlast, fun _ => eq_or_lt_of_getLast? h.pairwise hlast⟩

end Look.Exact

namespace Engine

variable (e : Engine) {cursor : Option String}

theorem meets_read (cursor : Option String) :
    Meets (e.read tenant cursor)
      (fun s => s.Among tenant sure ids ∧ s.tx.changesOf tenant = {})
      (fun seen _ => seen.Exact sure ids cursor e.batchSize) (fun _ _ => True) := by
  have hrequest : ∀ tx, Meets (Action.request .nodesAfter)
      (fun w => Session.Among tenant sure ids ⟨w, tx⟩ ∧ tx.changesOf tenant = {})
      (fun _ w => Session.Among tenant sure ids ⟨w, tx⟩ ∧ tx.changesOf tenant = {})
      (fun _ _ => True) := fun tx =>
    (TxAction.among_request .nodesAfter tx).beside.weaken (fun _ h => h) (fun _ _ h => h)
      fun _ _ _ => trivial
  apply (Meets.step (fun _ _ _ => trivial) (Meets.reading _ hrequest)).bind
  rintro rows scope s ⟨hrows, hs, hclean⟩
  have hview : s.world.store.view s.tx tenant = (s.world.store.tablesOf tenant).view := by
    show View.mk _ (s.tx.changesOf tenant) = _
    rw [hclean]
    rfl
  refine ⟨hs.world.store.nodes, hs.world.store.kept, ?_⟩
  show rows.map Node.id = page (s.world.store.tablesOf tenant).nodes.keys cursor _
  rw [← hrows, hview, (hs.world.store.wellKeyed tenant).map_id_nodesAfter]

theorem meets_look (cursor : Option String) :
    Meets (e.look tenant cursor) (World.Among tenant sure ids)
      (fun seen _ => seen.Exact sure ids cursor e.batchSize) (fun _ _ => True) := by
  apply (Meets.check fun _ _ _ => trivial).bind
  intro _
  apply ((Action.among_begin .readWrite).weaken (fun _ h => h) (fun _ _ h => h)
    fun _ _ _ => trivial).bind
  intro tx
  apply ((meets_read e cursor).session tx).bind
  rintro ⟨r, tx'⟩ scope w hr
  cases r with
  | ok seen => exact hr
  | error f => trivial

/-- A batch that is answered has looked before, at the nodes that it answers with. -/
theorem look_of_batch {scope : Scope} {w v : World} {done : Batch}
    (h : Action.transact .readWrite (e.batch tenant cursor) scope w = .ok done v) :
    ∃ seen u, e.look tenant cursor scope w = .ok seen u ∧ seen.ids = done.ids := by
  obtain ⟨tx, w', s, hcheck, hbegin, hbatch, -⟩ := Action.exists_of_transact_eq_ok h
  obtain ⟨rows, s₁, hrows, hrest⟩ := exists_of_bind_eq_ok hbatch
  obtain ⟨now, s₂, _, hrest⟩ := exists_of_bind_eq_ok hrest
  obtain ⟨changes, s₃, _, hanswer⟩ := exists_of_bind_eq_ok hrest
  cases hanswer
  let seen : Look := ⟨(s₁.world.store.view s₁.tx tenant).tables, rows.map (·.id)⟩
  have hread : e.read tenant cursor scope ⟨w', tx⟩ = .ok seen s₁ := bind_apply_of_ok hrows
  have hlooked := Action.session_of_ok hread
  refine ⟨seen, s₁.world, ?_, rfl⟩
  unfold look
  rw [bind_apply_of_ok hcheck, bind_apply_of_ok hbegin]
  exact bind_apply_of_ok hlooked

/-! ## A whole sweep -/

/-- Where the looks go on after the first one, it was full and they do so behind its last node. -/
theorem looksFrom_cases {scope : Scope} {w : World} (hw : w.Among tenant sure ids) (more : Nat)
    (cursor : Option String) :
    e.looksFrom tenant (more + 1) cursor scope w = [] ∨
      ∃ seen : Look, seen.Exact sure ids cursor e.batchSize ∧
        (e.looksFrom tenant (more + 1) cursor scope w = [seen] ∨
          ∃ v : World, v.Among tenant sure ids ∧ ¬ seen.ids.length < e.batchSize ∧
            e.looksFrom tenant (more + 1) cursor scope w =
              seen :: e.looksFrom tenant more seen.ids.getLast? scope v) := by
  have hlook := meets_look e cursor scope w hw
  have hnext := among_transact_batch e cursor scope w hw
  unfold looksFrom
  cases hseen : e.look tenant cursor scope w with
  | error f u => exact .inl rfl
  | ok seen u =>
      rw [hseen] at hlook
      refine .inr ⟨seen, hlook, ?_⟩
      cases hbatch : Action.transact .readWrite (e.batch tenant cursor) scope w with
      | error f v => exact .inl rfl
      | ok done v =>
          rw [hbatch] at hnext
          obtain ⟨seen', u', hseen', hids⟩ := look_of_batch e hbatch
          rw [hseen] at hseen'
          cases hseen'
          dsimp only
          rw [← hids]
          split
          · exact .inl rfl
          · rename_i hfull
            exact .inr ⟨v, hnext, hfull, by cases more <;> rfl⟩

/-- Every look is one of the store as it was foreseen. -/
theorem exact_of_mem_looksFrom (more : Nat) :
    ∀ {cursor : Option String} {scope : Scope} {w : World}, w.Among tenant sure ids →
      ∀ x ∈ e.looksFrom tenant more cursor scope w,
        ∃ cursor, x.Exact sure ids cursor e.batchSize := by
  induction more with
  | zero => exact fun _ x hx => by contradiction
  | succ more ih =>
      intro cursor scope w hw x hx
      rcases looksFrom_cases e hw more cursor with hnone | ⟨seen, hseen, hone | ⟨v, hv, _, hmore⟩⟩
      · rw [hnone] at hx
        contradiction
      · rw [hone, List.mem_singleton] at hx
        rw [hx]
        exact ⟨cursor, hseen⟩
      · rw [hmore] at hx
        rcases List.mem_cons.1 hx with rfl | hlater
        · exact ⟨cursor, hseen⟩
        · exact ih hv x hlater

/-- Looks go up, and all of them are behind the cursor. -/
theorem looksFrom_increase (more : Nat) :
    ∀ {cursor : Option String} {scope : Scope} {w : World}, w.Among tenant sure ids →
      ((e.looksFrom tenant more cursor scope w).flatMap Look.ids).Pairwise (· < ·) ∧
        ∀ id ∈ (e.looksFrom tenant more cursor scope w).flatMap Look.ids,
          isAfter cursor id = true := by
  induction more with
  | zero =>
      intro cursor scope w _
      exact ⟨List.Pairwise.nil, fun id hid => by contradiction⟩
  | succ more ih =>
      intro cursor scope w hw
      rcases looksFrom_cases e hw more cursor with
        hnone | ⟨seen, hseen, hone | ⟨v, hv, hfull, hmore⟩⟩
      · rw [hnone]
        exact ⟨List.Pairwise.nil, fun id hid => by contradiction⟩
      · rw [hone, List.flatMap_singleton]
        exact ⟨hseen.pairwise, fun id hid => hseen.after_cursor hid⟩
      · -- the next look goes on behind the last node of this one
        obtain ⟨last, hlast, hmem, hmost⟩ := hseen.exists_last e.one_le_batchSize hfull
        rw [hmore, hlast, List.flatMap_cons, List.pairwise_append]
        obtain ⟨hrest, hbehind⟩ := @ih (some last) scope v hv
        have hlater : ∀ id ∈ (e.looksFrom tenant more (some last) scope v).flatMap Look.ids,
            last < id := fun id hid => (isAfter_some last id).1 (hbehind id hid)
        refine ⟨⟨hseen.pairwise, hrest, ?_⟩, ?_⟩
        · intro a ha b hb
          rcases hmost a ha with rfl | hless
          · exact hlater b hb
          · exact String.lt_trans hless (hlater b hb)
        · intro id hid
          rcases List.mem_append.1 hid with hfirst | hsecond
          · exact hseen.after_cursor hfirst
          · exact isAfter_of_lt (hseen.after_cursor hmem) (hlater id hsecond)

/-- A node up to the cursor is not looked at any more. -/
theorem countP_looksFrom_eq_zero (more : Nat) {scope : Scope} {w : World}
    (hw : w.Among tenant sure ids) {last id : String} (hid : id = last ∨ id < last) :
    (e.looksFrom tenant more (some last) scope w).countP (fun x => id ∈ x.ids) = 0 := by
  rw [List.countP_eq_zero]
  intro x hx hidx
  have hlooked : id ∈ (e.looksFrom tenant more (some last) scope w).flatMap Look.ids :=
    List.mem_flatMap.2 ⟨x, hx, of_decide_eq_true hidx⟩
  have hless : last < id :=
    (isAfter_some last id).1 ((e.looksFrom_increase more hw).2 id hlooked)
  rcases hid with rfl | hle
  · exact String.lt_irrefl id hless
  · exact String.lt_irrefl id (String.lt_trans hle hless)

/-- A node that is there whenever a sweep looks is in one look, if it is behind the cursor and the
sweep ends with an answer. -/
theorem countP_looksFrom (more : Nat) :
    ∀ {cursor : Option String} {scope : Scope} {w v : World} {batches : List Batch},
      w.Among tenant sure ids → ids.countP (isAfter cursor) < more →
      e.sweepFrom tenant more cursor scope w = .ok batches v →
      ∀ id, isAfter cursor id = true →
        (∀ x ∈ e.looksFrom tenant more cursor scope w, id ∈ x.tables.nodes) →
        (e.looksFrom tenant more cursor scope w).countP (fun x => id ∈ x.ids) = 1 := by
  induction more with
  | zero =>
      intro cursor scope w v batches _ hleft
      contradiction
  | succ more ih =>
      intro cursor scope w v batches hw hleft hsweep id hafter
      have hlook := meets_look e cursor scope w hw
      have hnext := among_transact_batch e cursor scope w hw
      obtain ⟨done, u, hbatch, hrest⟩ := exists_of_bind_eq_ok hsweep
      obtain ⟨seen, u', hseen, hids⟩ := look_of_batch e hbatch
      unfold looksFrom
      rw [hseen] at hlook
      rw [hbatch] at hnext
      rw [hseen, hbatch]
      dsimp only
      rw [← hids] at hrest ⊢
      split at hrest
      · rename_i hshort
        rw [if_pos hshort]
        intro hthere
        have hmem := hlook.mem_of_short hshort (hthere seen List.mem_cons_self) hafter
        rw [List.countP_singleton, if_pos (decide_eq_true hmem)]
      · rename_i hfull
        rw [if_neg hfull]
        obtain ⟨last, hlast, hmem, hmost⟩ := hlook.exists_last e.one_le_batchSize hfull
        rw [hlast] at hrest ⊢
        obtain ⟨more', u'', hsweep', _⟩ := exists_of_bind_eq_ok hrest
        intro hthere
        rcases hlook.mem_or_full (hthere seen List.mem_cons_self) hafter with hid | ⟨_, hbefore⟩
        · -- it is in this look, and the later ones are behind it
          rw [List.countP_cons, if_pos (decide_eq_true hid),
            e.countP_looksFrom_eq_zero more hnext (hmost id hid)]
        · have hnot : id ∉ seen.ids := fun hid => String.lt_irrefl id (hbefore id hid)
          rw [List.countP_cons, if_neg fun hid => hnot (of_decide_eq_true hid), Nat.add_zero]
          apply ih hnext _ hsweep' id
          · exact (isAfter_some last id).2 (hbefore last hmem)
          · exact fun x hx => hthere x (List.mem_cons_of_mem seen hx)
          · have hless := countP_isAfter_lt (hlook.mem_ids hmem) (hlook.after_cursor hmem)
            exact Nat.lt_of_lt_of_le hless (Nat.le_of_lt_succ hleft)

/-- In a sweep that ends with an answer, the looks are those of its batches. -/
theorem map_ids_looksFrom (more : Nat) :
    ∀ {cursor : Option String} {scope : Scope} {w v : World} {batches : List Batch},
      e.sweepFrom tenant more cursor scope w = .ok batches v →
      (e.looksFrom tenant more cursor scope w).map Look.ids = batches.map Batch.ids := by
  induction more with
  | zero =>
      intro cursor scope w v batches hsweep
      cases hsweep
      rfl
  | succ more ih =>
      intro cursor scope w v batches hsweep
      obtain ⟨done, u, hbatch, hrest⟩ := exists_of_bind_eq_ok hsweep
      obtain ⟨seen, u', hseen, hids⟩ := look_of_batch e hbatch
      unfold looksFrom
      rw [hseen, hbatch]
      dsimp only
      split at hrest
      · rename_i hshort
        cases hrest
        rw [if_pos hshort, List.map_singleton, List.map_singleton, hids]
      · rename_i hfull
        obtain ⟨later, u'', hlater, hdone⟩ := exists_of_bind_eq_ok hrest
        cases hdone
        rw [if_neg hfull, List.map_cons, List.map_cons, ih hlater, hids]

/-! ## Sweeps that nothing hinders -/

section
variable {scope : Scope} {before after : World → Prop}

theorem answers_refresh (hcheck : Answers scope Action.check after fun _ => after)
    (hupdate : Answers scope (Action.request .updateNode) after fun _ => after) (now : Timestamp)
    (row : SealedNode) :
    Answers scope (refresh tenant now row) (Session.Writing after)
      fun _ => Session.Writing after := by
  unfold refresh
  cases row.relevance.refreshed? now with
  | none => exact Answers.pure fun _ h => h
  | some fresh =>
      have hown : TxAction.Own tenant fun store tx =>
          store.updateNode tx tenant row.id (.ofScore fresh.salience now) :=
        TxAction.own_of_node row.id (·.stageUpdate row.id _) fun _ _ => rfl
      exact TxAction.answers_step hcheck (TxAction.answers_writing hupdate hown)

/-- A batch is answered if its page is and all updates are. -/
theorem answers_batch (hcheck : Answers scope Action.check before fun _ => before)
    (hpage : Answers scope (Action.request .nodesAfter) before fun _ => after)
    (hcheck' : Answers scope Action.check after fun _ => after)
    (hupdate : Answers scope (Action.request .updateNode) after fun _ => after)
    (cursor : Option String) :
    Answers scope (e.batch tenant cursor) (Session.Writing before)
      fun _ => Session.Writing after := by
  apply (TxAction.answers_step hcheck (TxAction.answers_reading hpage _)).bind
  intro rows
  have hnow : Answers scope Action.now after fun _ => after := fun w hw => ⟨_, w, rfl, hw⟩
  apply (TxAction.answers_inTransaction hnow).bind
  intro now
  exact (Answers.mapM (answers_refresh hcheck' hupdate now) rows).bind fun _ => .pure fun _ h => h

/-- Where nothing fails and only pages take time, a batch is committed as soon as its page is there,
if the scope lasts so long. -/
theorem answers_transact_batch {c : Conditions} {time duration : Nat}
    (hfailure : ∀ served r, c.failure served r = none)
    (hdelay : ∀ served r, c.delay served r = if r = .nodesAfter then duration else 0)
    (hwait : scope.wait time duration = (.ok (), time + duration))
    (hlive : ∀ now ≤ time + duration, scope.check now = .ok ()) (cursor : Option String) :
    Answers scope (Action.transact .readWrite (e.batch tenant cursor)) (World.At c time)
      fun _ => World.At c (time + duration) := by
  have hrequest (scope : Scope) (r : Request) (hr : r ≠ .nodesAfter) (now : Nat) :
      Answers scope (Action.request r) (World.At c now) fun _ => World.At c now :=
    @Action.answers_request_at scope c now 0 r (fun served => hfailure served r)
      (fun served => (hdelay served r).trans (if_neg hr)) rfl
  have hpage : Answers scope (Action.request .nodesAfter) (World.At c time)
      fun _ => World.At c (time + duration) :=
    Action.answers_request_at (fun served => hfailure served _)
      (fun served => (hdelay served _).trans (if_pos rfl)) hwait
  have hcheck := @Action.answers_check_at scope c time (hlive time (Nat.le_add_right _ _))
  have hbegin := Action.answers_begin_at (hrequest scope .begin (by decide) time)
  have hbatch := @answers_batch tenant e scope _ _ hcheck hpage
    (Action.answers_check_at (hlive _ (Nat.le_refl _))) (hrequest scope .updateNode (by decide) _)
    cursor
  exact Action.answers_transact hcheck hbegin hbatch
    (Action.answers_commit_at (hrequest .unbounded .commit (by decide) _))

end

theorem answers_sweepFrom {scope : Scope} (more : Nat) :
    ∀ cursor : Option String, Answers scope (e.sweepFrom tenant more cursor) (World.Calm scope)
      fun _ => World.Calm scope := by
  induction more with
  | zero => exact fun _ => Answers.pure fun _ h => h
  | succ more ih =>
      intro cursor
      have hbatch := @answers_batch tenant e scope _ _ Action.answers_check
        (Action.answers_request _) Action.answers_check (Action.answers_request _) cursor
      apply (Action.answers_transact Action.answers_check Action.answers_begin hbatch
        Action.answers_commit).bind
      intro done
      split
      · exact Answers.pure fun _ h => h
      · exact (ih done.ids.getLast?).bind fun _ => Answers.pure fun _ h => h

/-- In a calm world, a sweep with time to spend is answered unless another one is under way. -/
theorem recalculate_answers {scope : Scope} {w : World}
    (hcalm : w.Calm (scope.child w.clock e.config.sweep.deadlineMillis))
    (hfree : w.guard.holder? tenant = none) :
    ∃ n v, e.recalculate tenant scope w = .ok n v := by
  obtain ⟨g, -, hrecalculate⟩ := recalculate_of_free e hfree
  have hcalm' : World.Calm (scope.child w.clock e.config.sweep.deadlineMillis)
      { w with guard := g } := ⟨hcalm.failure, hcalm.delay, hcalm.live⟩
  obtain ⟨batches, v, hrun, -⟩ := @answers_sweepFrom tenant e _
    (w.store.nodeCount tenant + w.conditions.nodesWritten tenant + 1) none _ hcalm'
  have hsweeping := sweeping_of_ok e (v := { w with guard := g }) hrun
  exact ⟨_, _, by rw [(hrecalculate scope).2, hsweeping]⟩

/-! ## The result -/

theorem acquire_eq_ok {scope : Scope} {w v : World} {permit : Permit}
    (h : acquire tenant scope w = .ok permit v) :
    v.store = w.store ∧ v.conditions = w.conditions := by
  unfold acquire at h
  split at h
  · cases h
    exact ⟨rfl, rfl⟩
  · contradiction

theorem among_acquire {scope : Scope} {w v : World} {permit : Permit}
    (h : acquire tenant scope w = .ok permit v) (hw : w.Among tenant sure ids) :
    v.Among tenant sure ids := by
  obtain ⟨hstore, hconditions⟩ := acquire_eq_ok h
  refine ⟨?_, ?_⟩
  · rw [hstore]
    exact hw.store
  · rw [hconditions]
    exact hw.others

/-- The looks of a sweep that is answered are those of the batches whose changes it counts. -/
theorem map_ids_looks {scope : Scope} {w v : World} {n : Nat}
    (h : e.recalculate tenant scope w = .ok n v) :
    ∃ batches : List Batch, changesIn batches = n ∧
      (e.looks tenant scope w).map Look.ids = batches.map Batch.ids := by
  obtain ⟨-, g, batches, u, -, hacquire, hsweep, hcounted, -⟩ := e.recalculate_eq_ok h
  refine ⟨batches, hcounted, ?_⟩
  unfold looks
  rw [hacquire]
  exact map_ids_looksFrom e _ hsweep

/-- There are no more identifiers than a sweep has batches. -/
theorem length_keys_le (w : World) (tenant : Tenant) :
    ((w.store.tablesOf tenant).nodes.keys ++ w.conditions.others.flatMap fun other =>
        (other.2.changesOf tenant).nodes.keys).length ≤
      w.store.nodeCount tenant + w.conditions.nodesWritten tenant := by
  rw [List.length_append, List.length_flatMap, Std.ExtTreeMap.length_keys, List.sum_eq_foldl,
    List.foldl_map]
  simp only [Std.ExtTreeMap.length_keys]
  exact Nat.le_refl _

/-- A node that is there at first is there whenever a sweep looks, unless somebody deletes it. -/
theorem mem_looks_of_kept {scope : Scope} {w : World} (hstore : w.store.Reached)
    (hothers : ∀ other ∈ w.conditions.others, other.2.Made) {id : String}
    (hid : id ∈ (w.store.tablesOf tenant).nodes)
    (hkept : ∀ other ∈ w.conditions.others, (other.2.changesOf tenant).nodes[id]? ≠ some .delete) :
    ∀ x ∈ e.looks tenant scope w, id ∈ x.tables.nodes := by
  have hw : w.Among tenant [id] _ := World.among_keys hstore.wellKeyed
    (fun other h => (hothers other h).ownKeyed)
    (fun _ h => by rw [List.mem_singleton.1 h]; exact hid)
    (fun _ h => by rw [List.mem_singleton.1 h]; exact hkept)
  intro x hx
  unfold looks at hx
  cases hacquire : acquire tenant scope w with
  | error f u =>
      rw [hacquire] at hx
      contradiction
  | ok permit u =>
      rw [hacquire] at hx
      obtain ⟨_, hexact⟩ := exact_of_mem_looksFrom e _ (among_acquire hacquire hw) x hx
      exact hexact.kept id List.mem_cons_self

/-- Whatever others commit meanwhile, the identifiers that a sweep looks at go up, so that none is
looked at twice. If the sweep ends with an answer, a node that is there whenever it looks is in one
of its looks, and in no other. -/
theorem sweep_misses_no_node (tenant : Tenant) (scope : Scope) (w : World) (hstore : w.store.Reached)
    (hothers : ∀ other ∈ w.conditions.others, other.2.Made) :
    ((e.looks tenant scope w).flatMap Look.ids).Pairwise (· < ·) ∧
      ∀ n v, e.recalculate tenant scope w = .ok n v →
        ∀ id, (∀ x ∈ e.looks tenant scope w, id ∈ x.tables.nodes) →
          (e.looks tenant scope w).countP (fun x => id ∈ x.ids) = 1 := by
  have hw : w.Among tenant [] _ := World.among_keys hstore.wellKeyed
    (fun other h => (hothers other h).ownKeyed) (fun _ h => by contradiction)
    (fun _ h => by contradiction)
  constructor
  · unfold looks
    cases hacquire : acquire tenant scope w with
    | error f u => exact List.Pairwise.nil
    | ok permit u => exact (e.looksFrom_increase _ (among_acquire hacquire hw)).1
  · intro n v hok id
    obtain ⟨-, g, batches, u, -, hacquire, hsweep, -⟩ := e.recalculate_eq_ok hok
    unfold looks
    rw [hacquire]
    apply countP_looksFrom e _ (among_acquire hacquire hw) _ hsweep id rfl
    apply Nat.lt_succ_of_le
    obtain ⟨hsame, hconditions⟩ := acquire_eq_ok hacquire
    rw [Store.nodeCount, hsame, hconditions]
    exact Nat.le_trans List.countP_le_length (length_keys_le w tenant)

/-- A sweep in batches of one over three nodes. With its third request, another transaction puts in
a fourth one and deletes the second; the third node is looked at in one batch all the same. -/
theorem sweep_misses_no_node_behind_a_deletion :
    let e : Engine :=
      { config := { sweep := { batchSize := 1 } }
        nonce := fun _ => [], shuffle := fun _ ids => ids, shuffle_perm := fun _ _ => .refl _ }
    let put (tx : Transaction) (id : String) : Transaction :=
      tx.stageNode ⟨"acme"⟩ id (.put ⟨id, "person", id, ⟨[]⟩, none, default⟩)
    let fresh : Transaction := ⟨⟨1⟩, .readWrite, ∅⟩
    let store : Store := Store.commit {} (put (put (put fresh "a") "b") "c")
    let other : Transaction := (put fresh "d").stageNode ⟨"acme"⟩ "b" .delete
    let w : World :=
      { World.start {} default with store := store, conditions := { others := [(2, other)] } }
    ∃ n v, e.recalculate ⟨"acme"⟩ .unbounded w = .ok n v ∧
      (e.looks ⟨"acme"⟩ .unbounded w).countP (fun x => "c" ∈ x.ids) = 1 := by
  intro e put fresh store other w
  have hput : ∀ (tx : Transaction) (id : String), tx.access = .readWrite → tx.Made →
      (put tx id).Made := by
    intro tx id haccess hmade
    have hstage : (Write.putNode ⟨id, "person", id, ⟨[]⟩, none, default⟩).stage {} tx ⟨"acme"⟩ =
        .ok (.done, put tx id) := by
      simp only [Write.stage, Store.putNode, Transaction.checkWritable, haccess]
      rfl
    exact .staged {} _ _ hmade hstage
  have hfresh : fresh.Made := .begun {} .readWrite
  have hstore : store.Reached :=
    .committed (.empty rfl) (hput _ _ rfl (hput _ _ rfl (hput _ _ rfl hfresh))) rfl
  have hother : other.Made := by
    have hseen : ((store.view (put fresh "d") ⟨"acme"⟩).node? "b").isSome = true := by
      decide +kernel
    have hstage : (Write.deleteNode "b").stage store (put fresh "d") ⟨"acme"⟩ =
        .ok (.found true, other) := by
      simp only [Write.stage, Store.deleteNode, hseen]
      rfl
    exact .staged store _ _ (hput _ _ rfl hfresh) hstage
  have hothers : ∀ o ∈ w.conditions.others, o.2.Made := by
    intro o ho
    rw [List.mem_singleton.1 ho]
    exact hother
  have hthere : ∀ x ∈ e.looks ⟨"acme"⟩ .unbounded w, "c" ∈ x.tables.nodes := by
    apply mem_looks_of_kept e hstore hothers
    · decide +kernel
    · intro o ho
      rw [List.mem_singleton.1 ho]
      have hkept : ((other.changesOf ⟨"acme"⟩).nodes["c"]?).isNone = true := by decide +kernel
      rw [Option.isNone_iff_eq_none.1 hkept]
      exact (Option.some_ne_none _).symm
  have hcalm : w.Calm (Scope.unbounded.child w.clock e.config.sweep.deadlineMillis) :=
    ⟨fun _ _ => rfl, fun _ _ => rfl, rfl⟩
  have hfree : w.guard.holder? ⟨"acme"⟩ = none := by
    simp [w, World.start, Guard.ofConfig, Guard.holder?]
  obtain ⟨n, v, hok⟩ := recalculate_answers e hcalm hfree
  refine ⟨n, v, hok, ?_⟩
  exact (sweep_misses_no_node e ⟨"acme"⟩ .unbounded w hstore hothers).2 n v hok "c"
    hthere

end Engine
end SalientGraph
