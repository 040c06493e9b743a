import SalientGraph.Proofs.Committing
import SalientGraph.Proofs.Store.Effects

/-!
# What calls leave untouched

Calls that change salience write relevance and nothing else, and of a relevance only the
parts that they have to. An access is counted for the nodes that are named, a boost goes
to the entry that is named, a successor to the node that it succeeds, and a score is
written along with one of these, or by a sweep where it has changed. All else in the
graph is as it was, whatever calls are made one after another and whatever becomes of
them.
-/

namespace SalientGraph

/-! ## Parts of a relevance -/

/-- What there is to change the parts of a relevance for. -/
structure Relevance.Causes where
  accessed : Prop
  boosted : Prop
  superseded : Prop
  rated : Prop

namespace Relevance.Causes

/-- Nothing is to be changed. -/
def none : Causes :=
  ⟨False, False, False, False⟩

/-- Where one has a cause, so has the other. -/
structure Imply (c d : Causes) : Prop where
  accessed : c.accessed → d.accessed
  boosted : c.boosted → d.boosted
  superseded : c.superseded → d.superseded
  rated : c.rated → d.rated

end Relevance.Causes

/-- Each part of a relevance is as it was, unless there is a cause to change it. The creation is as
it was in any case. -/
structure Relevance.Changes (c : Causes) (before after : Relevance) : Prop where
  createdAt : after.createdAt = before.createdAt
  access : (after.accessCount = before.accessCount ∧ after.lastAccessed = before.lastAccessed) ∨
    c.accessed
  boost : after.userBoosted = before.userBoosted ∨ c.boosted
  successor : after.supersededBy = before.supersededBy ∨ c.superseded
  score : (after.salience = before.salience ∧ after.updatedAt = before.updatedAt) ∨ c.rated

namespace Relevance.Changes

variable {c d : Causes} {r s t : Relevance}

theorem refl (c : Causes) (r : Relevance) : r.Changes c r :=
  ⟨rfl, .inl ⟨rfl, rfl⟩, .inl rfl, .inl rfl, .inl ⟨rfl, rfl⟩⟩

theorem trans (h : r.Changes c s) (h' : s.Changes c t) : r.Changes c t where
  createdAt := h'.createdAt.trans h.createdAt
  access := by
    rcases h.access with ⟨hcount, htime⟩ | hcause
    · rw [← hcount, ← htime]
      exact h'.access
    · exact .inr hcause
  boost := by
    rcases h.boost with hboost | hcause
    · rw [← hboost]
      exact h'.boost
    · exact .inr hcause
  successor := by
    rcases h.successor with hsuccessor | hcause
    · rw [← hsuccessor]
      exact h'.successor
    · exact .inr hcause
  score := by
    rcases h.score with ⟨hsalience, htime⟩ | hcause
    · rw [← hsalience, ← htime]
      exact h'.score
    · exact .inr hcause

theorem mono (h : r.Changes c s) (himp : c.Imply d) : r.Changes d s :=
  ⟨h.createdAt, h.access.imp_right himp.accessed, h.boost.imp_right himp.boosted,
    h.successor.imp_right himp.superseded, h.score.imp_right himp.rated⟩

/-- Without any cause nothing has changed. -/
theorem eq_of_none (h : r.Changes .none s) : s = r := by
  obtain ⟨hcount, hlast⟩ := h.access.resolve_right id
  obtain ⟨hsalience, htime⟩ := h.score.resolve_right id
  have hboost := h.boost.resolve_right id
  have hsuccessor := h.successor.resolve_right id
  have hcreated := h.createdAt
  cases r
  cases s
  simp_all

end Relevance.Changes

/-- What an update gives cause to. It always comes with a score. -/
def RelevanceUpdate.causes (u : RelevanceUpdate) : Relevance.Causes :=
  ⟨u.accessedAt.isSome = true, u.boost = true, u.supersededBy.isSome = true, True⟩

theorem RelevanceUpdate.changes_apply (u : RelevanceUpdate) (r : Relevance) :
    r.Changes u.causes (u.apply r) := by
  obtain ⟨salience, updatedAt, boost, successor, accessedAt⟩ := u
  refine ⟨createdAt_apply _ r, ?_, ?_, ?_, .inr trivial⟩
  · cases accessedAt with
    | none => exact .inl (by cases boost <;> cases successor <;> exact ⟨rfl, rfl⟩)
    | some t => exact .inr rfl
  · cases boost with
    | false => exact .inl (by cases accessedAt <;> cases successor <;> rfl)
    | true => exact .inr rfl
  · cases successor with
    | none => exact .inl (by cases accessedAt <;> cases boost <;> rfl)
    | some id => exact .inr rfl

/-! ## Rows -/

/-- The relevance that an entry is given is the one that it has. -/
class FaithfullyRated (ρ : Type) [Rated ρ] : Prop extends LawfulRated ρ where
  relevance_mapRelevance (f : Relevance → Relevance) (row : ρ) :
    Rated.relevance (Rated.mapRelevance f row) = f (Rated.relevance row)

instance (π : Type) : FaithfullyRated (Node π) :=
  ⟨fun _ _ => rfl⟩

instance (π : Type) : FaithfullyRated (Edge π) :=
  ⟨fun _ _ => rfl⟩

/-- An entry is as absent as before, or it is there with everything but its relevance, of which the
parts are as they were unless there is a cause to change them. -/
inductive Rerated {ρ : Type} [Rated ρ] (c : Relevance.Causes) : Option ρ → Option ρ → Prop
  | absent : Rerated c none none
  | present (row : ρ) {r : Relevance} (h : (Rated.relevance row).Changes c r) :
      Rerated c (some row) (some (Rated.mapRelevance (fun _ => r) row))

namespace Rerated

variable {ρ : Type} [Rated ρ] [FaithfullyRated ρ] {c d : Relevance.Causes} {x y z : Option ρ}

theorem refl (c : Relevance.Causes) (x : Option ρ) : Rerated c x x := by
  cases x with
  | none => exact .absent
  | some row =>
      have hsame : row = Rated.mapRelevance (fun _ => Rated.relevance row) row := by
        rw [← LawfulRated.mapRelevance_eq (fun r => r) row, LawfulRated.mapRelevance_self]
      have hrerated := Rerated.present row (Relevance.Changes.refl c (Rated.relevance row))
      rw [← hsame] at hrerated
      exact hrerated

theorem trans (h : Rerated c x y) (h' : Rerated c y z) : Rerated c x z := by
  cases h with
  | absent => exact h'
  | present row hchanges =>
      cases h' with
      | present _ hmore =>
          rw [FaithfullyRated.relevance_mapRelevance] at hmore
          rw [LawfulRated.mapRelevance_mapRelevance]
          exact .present row (hchanges.trans hmore)

omit [FaithfullyRated ρ] in
theorem mono (h : Rerated c x y) (himp : c.Imply d) : Rerated d x y := by
  cases h with
  | absent => exact .absent
  | present row hchanges => exact .present row (hchanges.mono himp)

/-- An entry without any cause is as it was. -/
theorem eq_of_none (h : Rerated .none x y) : y = x := by
  cases h with
  | absent => rfl
  | present row hchanges =>
      rw [hchanges.eq_of_none, ← LawfulRated.mapRelevance_eq (fun r => r) row,
        LawfulRated.mapRelevance_self]

omit [FaithfullyRated ρ] in
theorem isSome_eq (h : Rerated c x y) : y.isSome = x.isSome := by
  cases h <;> rfl

omit [FaithfullyRated ρ] in
theorem exists_of_some {row : ρ} (h : Rerated c (some row) y) :
    ∃ r, y = some (Rated.mapRelevance (fun _ => r) row) ∧ (Rated.relevance row).Changes c r := by
  cases h with
  | present _ hchanges => exact ⟨_, rfl, hchanges⟩

end Rerated

/-- Each entry is as it was, or there is cause to change its relevance. -/
structure Tables.Rerated (nodes : String → Relevance.Causes) (edges : EdgeKey → Relevance.Causes)
    (s t : Tables) : Prop where
  nodes (id : String) : SalientGraph.Rerated (nodes id) s.nodes[id]? t.nodes[id]?
  edges (key : EdgeKey) : SalientGraph.Rerated (edges key) s.edges[key]? t.edges[key]?

/-! ## Ratings -/

namespace Rating

/-- A rating changes what its update gives cause to. -/
theorem changes_rated (r : Rating) :
    r.row.relevance.Changes r.update.causes r.rated.relevance :=
  (r.update.scoredFor r.row.relevance).changes_apply r.row.relevance

/-- Ratings that fit change the nodes that they are of, for the causes of their updates. -/
theorem Fit.rerated {t : Tables} {rs : List Rating} (h : Fit t rs) {id : String}
    {c : Relevance.Causes} (hcauses : ∀ r ∈ rs, r.row.id = id → r.update.causes.Imply c) :
    Rerated c t.nodes[id]? (Write.applyEach (rs.map write) t).nodes[id]? := by
  by_cases hrated : ∃ r ∈ rs, r.row.id = id
  · obtain ⟨r, hr, rfl⟩ := hrated
    rw [h.getElem?_applyEach r hr, h.found r hr]
    exact .present r.row (r.changes_rated.mono (hcauses r hr rfl))
  · rw [getElem?_applyEach_of_ne fun r hr heq => hrated ⟨r, hr, heq⟩]
    exact .refl c _

end Rating

/-! ## Calls -/

/-- The salience of a node differed from its score at some time, and the node is otherwise as it was
but rescored for that time. -/
def Tables.Refreshed (before after : Tables) (id : String) : Prop :=
  ∃ row now, before.nodes[id]? = some row ∧
    Relevance.differs row.relevance.salience.toFloat (row.relevance.score now) = true ∧
    after.nodes[id]? = some (row.mapRelevance (·.scoredAt now))

namespace Call

/-- What a call gives cause to for a node, given the graph before and after it. A sweep gives cause
to a score only where the stored one differed. -/
def nodeCauses (call : Call) (before after : Tables) (id : String) : Relevance.Causes :=
  match call with
  | boostNode other => ⟨False, other = id, False, other = id⟩
  | supersedeNode old new => ⟨False, False, old = id, old = id ∨ new = id⟩
  | recordAccess ids => ⟨id ∈ ids, False, False, id ∈ ids⟩
  | recalculate => ⟨False, False, False, before.Refreshed after id⟩
  | _ => .none

/-- What a call gives cause to for an edge. -/
def edgeCauses (call : Call) (key : EdgeKey) : Relevance.Causes :=
  match call with
  | boostEdge other => ⟨False, other = key, False, other = key⟩
  | _ => .none

variable {t : Tables} {now : Timestamp}

/-- Only nodes are rated that a call names, and for what it names them. -/
theorem causes_of_mem_ratings (ht : t.WellKeyed) {call : Call} {r : Rating}
    (hr : r ∈ call.ratings now t) (before after : Tables) :
    r.update.causes.Imply (call.nodeCauses before after r.row.id) := by
  cases call with
  | boostNode id =>
      obtain ⟨row, hrow, rfl⟩ := List.mem_map.1 hr
      have hid : id = row.id := (ht.nodes (Option.mem_toList.1 hrow)).symm
      exact ⟨nofun, fun _ => hid, nofun, fun _ => hid⟩
  | supersedeNode old new =>
      have hr' : r ∈ if old = new then [] else
          (t.nodes[old]?).toList.map (⟨·, .ofSuccessor now new⟩) ++
            (t.nodes[new]?).toList.map (⟨·, .unscored now⟩) := hr
      split at hr'
      · contradiction
      · rcases List.mem_append.1 hr' with hr' | hr'
        · obtain ⟨row, hrow, rfl⟩ := List.mem_map.1 hr'
          have hold : old = row.id := (ht.nodes (Option.mem_toList.1 hrow)).symm
          exact ⟨nofun, nofun, fun _ => hold, fun _ => .inl hold⟩
        · obtain ⟨row, hrow, rfl⟩ := List.mem_map.1 hr'
          have hnew : new = row.id := (ht.nodes (Option.mem_toList.1 hrow)).symm
          exact ⟨nofun, nofun, nofun, fun _ => .inr hnew⟩
  | recordAccess ids =>
      obtain ⟨row, hrow, rfl⟩ := List.mem_map.1 hr
      obtain ⟨id, hid, hfound⟩ := List.mem_filterMap.1 hrow
      have hmem : row.id ∈ ids := by
        rw [ht.nodes hfound]
        exact mem_distinct.1 hid
      exact ⟨fun _ => hmem, nofun, nofun, fun _ => hmem⟩
  | createNode | createEdge | getNode | getEdge | removeNode | removeEdge | neighbors | traverse
  | context | shortestPath | fullTextSearch | semanticSearch | hybridSearch | boostEdge
  | recalculate => contradiction

theorem nodes_rerated (ht : t.WellKeyed) (call : Call) (before after : Tables) (id : String) :
    Rerated (call.nodeCauses before after id) t.nodes[id]?
      (Write.applyEach (call.updates now t) t).nodes[id]? := by
  have hrated : Rerated (call.nodeCauses before after id) t.nodes[id]?
      (Write.applyEach ((call.ratings now t).map Rating.write) t).nodes[id]? := by
    apply (ht.fit_ratings now call).rerated
    rintro r hr rfl
    exact causes_of_mem_ratings ht hr before after
  cases call with
  | boostEdge key =>
      have hnodes : (Write.applyEach ((boostEdge key).updates now t) t).nodes = t.nodes := by
        show (Write.applyEach ((t.edges[key]?).toList.map _) t).nodes = _
        cases t.edges[key]? <;> rfl
      rw [hnodes]
      exact .refl _ _
  | createNode | createEdge | getNode | getEdge | removeNode | removeEdge | neighbors | traverse
  | context | shortestPath | fullTextSearch | semanticSearch | hybridSearch | boostNode
  | supersedeNode | recordAccess | recalculate => exact hrated

theorem edgeCauses_of_ne {call : Call} {key : EdgeKey} (h : call ≠ .boostEdge key) :
    call.edgeCauses key = .none := by
  cases call with
  | boostEdge other =>
      have hkey : (other = key) = False := eq_false fun heq => h (heq ▸ rfl)
      rw [edgeCauses, hkey, Relevance.Causes.none]
  | createNode | createEdge | getNode | getEdge | removeNode | removeEdge | neighbors | traverse
  | context | shortestPath | fullTextSearch | semanticSearch | hybridSearch | boostNode
  | supersedeNode | recordAccess | recalculate => rfl

theorem edges_rerated (t : Tables) (call : Call) (key : EdgeKey) :
    Rerated (call.edgeCauses key) t.edges[key]?
      (Write.applyEach (call.updates now t) t).edges[key]? := by
  cases call with
  | boostEdge other =>
      show Rerated _ _ (Write.applyEach ((t.edges[other]?).toList.map _) t).edges[key]?
      cases hrow : t.edges[other]? with
      | none => exact .refl _ _
      | some row =>
          let u := (RelevanceUpdate.ofBoost now).scoredFor row.relevance
          show Rerated _ t.edges[key]? (t.edges.modify other u.applyTo)[key]?
          rw [Std.ExtTreeMap.getElem?_modify]
          by_cases hkey : other = key
          · subst hkey
            have hcauses : u.causes.Imply ((boostEdge other).edgeCauses other) :=
              ⟨nofun, fun _ => rfl, nofun, fun _ => rfl⟩
            rw [if_pos Std.ReflCmp.compare_self, hrow]
            exact .present row ((u.changes_apply row.relevance).mono hcauses)
          · rw [if_neg fun heq => hkey (Std.LawfulEqCmp.eq_of_compare heq)]
            exact .refl _ _
  | createNode | createEdge | getNode | getEdge | removeNode | removeEdge | neighbors | traverse
  | context | shortestPath | fullTextSearch | semanticSearch | hybridSearch | boostNode
  | supersedeNode | recordAccess | recalculate =>
      show Rerated _ _ (Write.applyEach ((ratings now t _).map Rating.write) t).edges[key]?
      rw [Rating.edges_applyEach]
      exact .refl _ _

end Call

/-! ### Sweeps -/

theorem Relevance.changes_scoredAt (r : Relevance) (now : Timestamp) {c : Causes} (h : c.rated) :
    r.Changes c (r.scoredAt now) :=
  ⟨rfl, .inl ⟨rfl, rfl⟩, .inl rfl, .inl rfl, .inr h⟩

/-- What a sweep over a tenant has made of the graphs where it has got to a cursor. It has not come
back to any node. -/
structure Tables.Swept (tenant : Tenant) (begun : Tenant → Tables) (cursor : Option String)
    (graphs : Tenant → Tables) : Prop where
  others (other : Tenant) : other ≠ tenant → graphs other = begun other
  edges : (graphs tenant).edges = (begun tenant).edges
  nodes (id : String) : (graphs tenant).nodes[id]? = (begun tenant).nodes[id]? ∨
    isAfter cursor id = false ∧ (begun tenant).Refreshed (graphs tenant) id

theorem Tables.Swept.refl (tenant : Tenant) (begun : Tenant → Tables) :
    Swept tenant begun none begun :=
  ⟨fun _ _ => rfl, rfl, fun _ => .inl rfl⟩

/-- A batch refreshes nodes after its cursor, which are still as in the beginning. -/
theorem Engine.swept_keptByBatches (e : Engine) (tenant : Tenant) (wall : Nat → Timestamp)
    (begun : Tenant → Tables) : e.KeptByBatches tenant wall (Tables.Swept tenant begun) := by
  intro graphs time cursor hkeyed hswept
  dsimp only
  have hfit := (hkeyed tenant).fit_stale (wall time) cursor e.batchSize
  have hpage := (hkeyed tenant).map_id_nodesAfter cursor e.batchSize
  have hsorted := (graphs tenant).pairwise_keys_nodes
  refine ⟨?_, ?_, ?_⟩
  · intro other hother
    rw [Write.applyEachAt_of_ne _ hother, hswept.others other hother]
  · rw [Write.applyEachAt_self, Rating.edges_applyEach, hswept.edges]
  · intro id
    rw [Write.applyEachAt_self, hpage]
    by_cases hrated : ∃ r ∈ Rating.stale (wall time)
        ((graphs tenant).view.nodesAfter cursor e.batchSize), r.row.id = id
    · obtain ⟨r, hr, rfl⟩ := hrated
      have hfound := hfit.found r hr
      have hwritten := hfit.getElem?_applyEach r hr
      obtain ⟨row, hstale, rfl⟩ := List.mem_map.1 hr
      obtain ⟨hrow, hdiffers⟩ := List.mem_filter.1 hstale
      have hmem : row.id ∈ page (graphs tenant).nodes.keys cursor e.batchSize := by
        rw [← hpage]
        exact List.mem_map_of_mem hrow
      refine .inr ⟨isAfter_getLast?_of_mem_page hsorted hmem, row, wall time, ?_, ?_, ?_⟩
      · -- nodes after the cursor have not been refreshed before
        rcases hswept.nodes row.id with hsame | ⟨hbehind, _⟩
        · rw [← hsame, hfound]
        · rw [after_cursor_of_mem_page hmem] at hbehind
          contradiction
      · unfold Relevance.refreshed? at hdiffers
        split at hdiffers
        · assumption
        · contradiction
      · rw [hwritten, Rating.rated_eq]
        rfl
    · unfold Tables.Refreshed
      rw [Rating.getElem?_applyEach_of_ne fun r hr heq => hrated ⟨r, hr, heq⟩]
      exact (hswept.nodes id).imp_right fun h => ⟨isAfter_getLast?_page h.1, h.2⟩

theorem Tables.Swept.rerated {tenant : Tenant} {begun graphs : Tenant → Tables}
    {cursor : Option String} (h : Swept tenant begun cursor graphs) :
    (begun tenant).Rerated (Call.recalculate.nodeCauses (begun tenant) (graphs tenant))
      Call.recalculate.edgeCauses (graphs tenant) := by
  constructor
  · intro id
    rcases h.nodes id with hsame | ⟨_, hrefreshed⟩
    · rw [hsame]
      exact .refl _ _
    · have hcause : (Call.recalculate.nodeCauses (begun tenant) (graphs tenant) id).rated :=
        hrefreshed
      obtain ⟨row, now, hbefore, _, hafter⟩ := hrefreshed
      -- in the graphs a node is replaced, and here its relevance is
      have hreplaced : Node.mapRelevance (·.scoredAt now) row =
          Rated.mapRelevance (fun _ => row.relevance.scoredAt now) row :=
        LawfulRated.mapRelevance_eq (·.scoredAt now) row
      rw [hbefore, hafter, hreplaced]
      exact .present row (row.relevance.changes_scoredAt now hcause)
  · intro key
    rw [h.edges]
    exact .refl _ _

/-! ### Series -/

namespace Engine

variable (e : Engine)

/-- A call changes entries of its tenant that it gives cause to change, and nothing else. -/
theorem rerated_serve {o : Occasion} (hcall : o.call.isRating = true) {w : World}
    (hkeyed : w.store.WellKeyed) :
    let v := (e.serve o w).2
    v.store.WellKeyed ∧
      (∀ other, other ≠ o.tenant → v.store.tablesOf other = w.store.tablesOf other) ∧
      (w.store.tablesOf o.tenant).Rerated
        (o.call.nodeCauses (w.store.tablesOf o.tenant) (v.store.tablesOf o.tenant))
        o.call.edgeCauses (v.store.tablesOf o.tenant) := by
  have hserve : (e.serve o w).2 = finalState (e.perform o.tenant o.call o.scope (w.arrive o)) :=
    congrArg Prod.snd (e.serve_eq o w)
  rw [hserve]
  by_cases hsweep : o.call = .recalculate
  · rw [hsweep, perform, finalState_map]
    have hbegun : Upholds o.wall (Tables.Swept o.tenant w.store.tablesOf none) (w.arrive o) :=
      ⟨o.alone, rfl, hkeyed, .refl o.tenant _⟩
    obtain ⟨_, _, hkeyed', _, hswept⟩ := (upholds_recalculate e
      (e.swept_keptByBatches o.tenant o.wall w.store.tablesOf)).finalState o.scope hbegun
    exact ⟨hkeyed', hswept.others, hswept.rerated⟩
  · rcases rating_cases e (v := w.arrive o) o.alone hkeyed o.tenant hcall hsweep o.scope with
      hstill | ⟨time, events, hcommitted⟩
    · have htables : (finalState (e.perform o.tenant o.call o.scope (w.arrive o))).store.tablesOf =
          w.store.tablesOf := funext (hstill.tablesOf_eq o.alone)
      refine ⟨?_, ?_, ?_⟩
      · intro tenant
        rw [htables]
        exact hkeyed tenant
      · intro other _
        rw [htables]
      · rw [htables]
        exact ⟨fun _ => .refl _ _, fun _ => .refl _ _⟩
    · refine ⟨hcommitted.wellKeyed, ?_, ?_⟩
      · intro other hother
        rw [hcommitted.tables, Write.applyEachAt_of_ne _ hother]
        rfl
      · rw [hcommitted.tables, Write.applyEachAt_self]
        exact ⟨Call.nodes_rerated (hkeyed o.tenant) o.call _ _, Call.edges_rerated _ o.call⟩

/-- Some call of a series, for a tenant, gives a certain cause when its turn comes. -/
def Given (tenant : Tenant) (os : List Occasion) (w : World)
    (causes : Tables → Tables → Call → Relevance.Causes) (part : Relevance.Causes → Prop) : Prop :=
  ∃ before o after, os = before ++ o :: after ∧ o.tenant = tenant ∧
    let v := (e.serveAll before w).2
    part (causes (v.store.tablesOf tenant) ((e.serve o v).2.store.tablesOf tenant) o.call)

/-- What the calls of a series give cause to together. -/
def causesIn (tenant : Tenant) (os : List Occasion) (w : World)
    (causes : Tables → Tables → Call → Relevance.Causes) : Relevance.Causes where
  accessed := e.Given tenant os w causes (·.accessed)
  boosted := e.Given tenant os w causes (·.boosted)
  superseded := e.Given tenant os w causes (·.superseded)
  rated := e.Given tenant os w causes (·.rated)

section
variable {e} {os : List Occasion} {o : Occasion} {w : World} {tenant : Tenant}
  (causes : Tables → Tables → Call → Relevance.Causes)

theorem causes_imply_head (htenant : o.tenant = tenant) :
    (causes (w.store.tablesOf tenant) ((e.serve o w).2.store.tablesOf tenant) o.call).Imply
      (e.causesIn tenant (o :: os) w causes) := by
  have hgiven (part : Relevance.Causes → Prop) (h : part (causes (w.store.tablesOf tenant)
      ((e.serve o w).2.store.tablesOf tenant) o.call)) :
      e.Given tenant (o :: os) w causes part := ⟨[], o, os, rfl, htenant, h⟩
  exact ⟨hgiven (·.accessed), hgiven (·.boosted), hgiven (·.superseded), hgiven (·.rated)⟩

theorem causes_imply_tail :
    (e.causesIn tenant os (e.serve o w).2 causes).Imply
      (e.causesIn tenant (o :: os) w causes) := by
  have hgiven (part : Relevance.Causes → Prop) (h : e.Given tenant os (e.serve o w).2 causes part) :
      e.Given tenant (o :: os) w causes part := by
    obtain ⟨before, other, after, rfl, hother⟩ := h
    exact ⟨o :: before, other, after, rfl, hother⟩
  exact ⟨hgiven (·.accessed), hgiven (·.boosted), hgiven (·.superseded), hgiven (·.rated)⟩

theorem Given.exists_mem {part : Relevance.Causes → Prop} (h : e.Given tenant os w causes part) :
    ∃ o ∈ os, o.tenant = tenant ∧ ∃ t u, part (causes t u o.call) := by
  obtain ⟨before, o, after, rfl, htenant, hpart⟩ := h
  exact ⟨o, List.mem_append_right before List.mem_cons_self, htenant, _, _, hpart⟩

/-- Where no call of a tenant gives any cause, they give none together. -/
theorem causes_imply_none
    (h : ∀ o ∈ os, o.tenant = tenant → ∀ t u, causes t u o.call = .none) :
    (e.causesIn tenant os w causes).Imply .none := by
  have hnone (part : Relevance.Causes → Prop) (hpart : e.Given tenant os w causes part) :
      part .none := by
    obtain ⟨o, ho, htenant, t, u, hcause⟩ := hpart.exists_mem
    rw [← h o ho htenant t u]
    exact hcause
  exact ⟨hnone (·.accessed), hnone (·.boosted), hnone (·.superseded), hnone (·.rated)⟩

end

/-- Entries change for what the calls of a series give cause to. -/
theorem rerated_serveAll (tenant : Tenant) (os : List Occasion)
    (hcalls : ∀ o ∈ os, o.call.isRating = true) :
    ∀ {w : World}, w.store.WellKeyed →
      (w.store.tablesOf tenant).Rerated
        (fun id => e.causesIn tenant os w fun before after call => call.nodeCauses before after id)
        (fun key => e.causesIn tenant os w fun _ _ call => call.edgeCauses key)
        ((e.serveAll os w).2.store.tablesOf tenant) := by
  induction os with
  | nil => exact fun _ => ⟨fun _ => .refl _ _, fun _ => .refl _ _⟩
  | cons o os ih =>
      intro w hkeyed
      obtain ⟨hcall, hrest⟩ := List.forall_mem_cons.1 hcalls
      obtain ⟨hkeyed', hothers, hfirst⟩ := e.rerated_serve hcall hkeyed
      have hlater := ih hrest hkeyed'
      by_cases htenant : o.tenant = tenant
      · subst htenant
        constructor
        · intro id
          apply ((hfirst.nodes id).mono _).trans ((hlater.nodes id).mono (causes_imply_tail _))
          exact causes_imply_head (fun t u call => call.nodeCauses t u id) rfl
        · intro key
          apply ((hfirst.edges key).mono _).trans ((hlater.edges key).mono (causes_imply_tail _))
          exact causes_imply_head (fun _ _ call => call.edgeCauses key) rfl
      · -- the call is for another tenant
        rw [hothers tenant (Ne.symm htenant)] at hlater
        exact ⟨fun id => (hlater.nodes id).mono (causes_imply_tail _),
          fun key => (hlater.edges key).mono (causes_imply_tail _)⟩

/-- In every series of calls that change salience, from every committed store, however long each
request to it takes, whether or not it fails, and whenever the scope of a call is over: no tenant
gets or loses an entry, entries change in their relevance alone, each part of which changes only for
what gives cause to it, and an edge that is not boosted does not change at all. -/
theorem calls_change_relevance_for_a_cause (w : World) (hstore : w.store.Reached)
    (os : List Occasion) (hcalls : ∀ o ∈ os, o.call.isRating = true) (tenant : Tenant) :
    let before := w.store.tablesOf tenant
    let after := (e.serveAll os w).2.store.tablesOf tenant
    (∀ id, id ∈ after.nodes ↔ id ∈ before.nodes) ∧
      (∀ key, key ∈ after.edges ↔ key ∈ before.edges) ∧
      (∀ id (row : SealedNode), before.nodes[id]? = some row → ∃ r,
        after.nodes[id]? = some (row.mapRelevance fun _ => r) ∧
          row.relevance.Changes (e.causesIn tenant os w fun t u call => call.nodeCauses t u id) r) ∧
      (∀ key (row : SealedEdge), before.edges[key]? = some row → ∃ r,
        after.edges[key]? = some (row.mapRelevance fun _ => r) ∧
          row.relevance.Changes (e.causesIn tenant os w fun _ _ call => call.edgeCauses key) r) ∧
      ∀ key, (∀ o ∈ os, o.tenant = tenant → o.call ≠ .boostEdge key) →
        after.edges[key]? = before.edges[key]? := by
  intro before after
  have hrerated := e.rerated_serveAll tenant os hcalls hstore.wellKeyed
  refine ⟨?_, ?_, ?_, ?_, ?_⟩
  · intro id
    rw [Std.ExtTreeMap.mem_iff_isSome_getElem?, Std.ExtTreeMap.mem_iff_isSome_getElem?,
      (hrerated.nodes id).isSome_eq]
  · intro key
    rw [Std.ExtTreeMap.mem_iff_isSome_getElem?, Std.ExtTreeMap.mem_iff_isSome_getElem?,
      (hrerated.edges key).isSome_eq]
  · intro id row hrow
    have hnode := hrerated.nodes id
    rw [hrow] at hnode
    exact hnode.exists_of_some
  · intro key row hrow
    have hedge := hrerated.edges key
    rw [hrow] at hedge
    exact hedge.exists_of_some
  · intro key hnot
    refine ((hrerated.edges key).mono (causes_imply_none _ ?_)).eq_of_none
    intro o ho htenant _ _
    exact Call.edgeCauses_of_ne (hnot o ho htenant)

/-- A missing node cannot be boosted, a successor is marked, and there is no time for a sweep. The
successor has another score at most, and the edge to it is as it was. -/
theorem calls_change_relevance_for_a_cause_around_a_successor :
    let e : Engine :=
      { nonce := fun _ => [], shuffle := fun _ ids => ids, shuffle_perm := fun _ _ => .refl _ }
    let acme : Tenant := ⟨"acme"⟩
    let node (id : String) : SealedNode := ⟨id, "concept", id, ⟨[0x7b, 0x7d]⟩, none, default⟩
    let edge : SealedEdge := ⟨"a", "b", "next", 1.0, ⟨[0x7b, 0x7d]⟩, default⟩
    let nodes := ((Store.begin {} .readWrite).1.stageNode acme "a" (.put (node "a"))).stageNode
      acme "b" (.put (node "b"))
    let tx := nodes.stageEdge acme edge.key (.put edge)
    let w : World := { World.start {} default with store := Store.commit {} tx }
    let occasion (call : Call) (scope : Scope) : Occasion :=
      ⟨acme, call, scope, 0, w.wall, 0, 0, {}, rfl⟩
    let os := [occasion (.boostNode "c") .unbounded, occasion (.supersedeNode "a" "b") .unbounded,
      occasion .recalculate ⟨some 0, none⟩]
    let before := w.store.tablesOf acme
    let after := (e.serveAll os w).2.store.tablesOf acme
    w.store.Reached ∧ (∀ o ∈ os, o.call.isRating = true) ∧
      (e.serveAll os w).1.map (·.outcome.isOk) = [false, true, false] ∧
      edge.key ∈ before.edges ∧ after.edges[edge.key]? = before.edges[edge.key]? ∧
      ∃ row r, before.nodes["b"]? = some row ∧
        after.nodes["b"]? = some (row.mapRelevance fun _ => r) ∧
        r.accessCount = row.relevance.accessCount ∧ r.lastAccessed = row.relevance.lastAccessed ∧
        r.userBoosted = row.relevance.userBoosted ∧
        r.supersededBy = row.relevance.supersededBy := by
  intro e acme node edge nodes tx w occasion os before after
  have hmade : tx.Made :=
    .staged {} (.putEdge edge) acme (.staged {} (.putNode (node "b")) acme
      (.staged {} (.putNode (node "a")) acme (.begun {} .readWrite) rfl) rfl) rfl
  have hstore : w.store.Reached := .committed (.empty rfl) hmade rfl
  have hcalls : ∀ o ∈ os, o.call.isRating = true := by decide
  obtain ⟨_, _, hnodes, _, hedges⟩ := calls_change_relevance_for_a_cause e w hstore os hcalls acme
  have hb : before.nodes["b"]?.isSome = true := by decide +kernel
  obtain ⟨row, hrow⟩ := Option.isSome_iff_exists.1 hb
  obtain ⟨r, hr, hchanges⟩ := hnodes "b" row hrow
  -- of the calls, only the second one names this node, and only as a successor
  have hnever (part : Relevance.Causes → Prop)
      (hpart : ∀ o ∈ os, ∀ t u, ¬ part (o.call.nodeCauses t u "b")) :
      ¬ e.Given acme os w (fun t u call => call.nodeCauses t u "b") part := by
    intro hgiven
    obtain ⟨o, ho, _, t, u, hcause⟩ := hgiven.exists_mem
    exact hpart o ho t u hcause
  have haccess := hchanges.access.resolve_right
    (hnever (·.accessed) (by simp [os, occasion, Call.nodeCauses]))
  have hboost := hchanges.boost.resolve_right
    (hnever (·.boosted) (by simp [os, occasion, Call.nodeCauses]))
  have hsuccessor := hchanges.successor.resolve_right
    (hnever (·.superseded) (by simp [os, occasion, Call.nodeCauses]))
  refine ⟨hstore, hcalls, by decide +kernel, by decide +kernel, ?_, row, r, hrow, hr,
    haccess.1, haccess.2, hboost, hsuccessor⟩
  apply hedges
  simp [os, occasion]

end Engine
end SalientGraph
