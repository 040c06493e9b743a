import SalientGraph.Proofs.Store.Reached
import SalientGraph.Proofs.Transacting

/-!
# Nodes that are there and nodes that may be

While others use the store, little is known of what is in it. But of the nodes of a
tenant, those stay that nobody deletes, and none turns up that was not there and that
nobody puts in. Between these bounds the store may change with every request; a
transaction that only updates nodes keeps them, too.
-/

namespace SalientGraph

/-! ## Keys that a commit leaves -/

theorem Staging.mem_of_mem_publish {κ ρ : Type} {order : κ → κ → Ordering} [Std.TransCmp order]
    [Std.LawfulEqCmp order] [Rated ρ] {staging : Staging κ ρ order} {table : Table κ ρ order}
    {key : κ} (h : key ∈ staging.publish table) : key ∈ table ∨ key ∈ staging := by
  rw [Std.ExtTreeMap.mem_iff_isSome_getElem?, getElem?_publish, find?] at h
  cases hs : staging[key]? with
  | none =>
      rw [hs] at h
      exact .inl (Std.ExtTreeMap.mem_iff_isSome_getElem?.2 h)
  | some s => exact .inr (Std.ExtTreeMap.mem_iff_isSome_getElem?.2 (by rw [hs]; rfl))

theorem Staging.mem_publish_of_mem {κ ρ : Type} {order : κ → κ → Ordering} [Std.TransCmp order]
    [Std.LawfulEqCmp order] [Rated ρ] {staging : Staging κ ρ order} {table : Table κ ρ order}
    {key : κ} (h : key ∈ table) (hkept : staging[key]? ≠ some .delete) :
    key ∈ staging.publish table := by
  rw [Std.ExtTreeMap.mem_iff_isSome_getElem?] at h ⊢
  rw [getElem?_publish, find?]
  cases hs : staging[key]? with
  | none => exact h
  | some s =>
      cases s with
      | put row => rfl
      | delete => exact absurd hs hkept
      | update changes =>
          show (table[key]?.map _).isSome = true
          rw [Option.isSome_map]
          exact h

/-- An update turns nothing else into a deletion. -/
theorem Staged.eq_delete_of_absorb {ρ : Type} [Rated ρ] {u : RelevanceUpdate} {s : Staged ρ}
    (h : s.absorb u = .delete) : s = .delete := by
  cases s with
  | put row => cases h
  | delete => rfl
  | update changes => cases h

theorem Staging.stageUpdate_ne_delete {κ ρ : Type} {order : κ → κ → Ordering}
    [Std.TransCmp order] [Std.LawfulEqCmp order] [Rated ρ] {staging : Staging κ ρ order}
    {key other : κ} (u : RelevanceUpdate) (h : staging[other]? ≠ some .delete) :
    (staging.stageUpdate key u)[other]? ≠ some .delete := by
  rw [stageUpdate, Std.ExtTreeMap.getElem?_insert]
  split
  · rename_i hkey
    rw [Std.LawfulEqCmp.eq_of_compare hkey]
    intro hdelete
    have hbefore := Staged.eq_delete_of_absorb (Option.some.inj hdelete)
    cases hs : staging[other]? with
    | none =>
        rw [hs] at hbefore
        cases hbefore
    | some s =>
        rw [hs] at hbefore
        exact h (hs.trans (congrArg some hbefore))
  · exact h

/-! ## Between two bounds -/

/-- The committed nodes of a tenant have identifiers between two lists: all of the first list are
there, and none beyond the second. Every row is kept under its own key. -/
structure Store.Among (tenant : Tenant) (sure ids : List String) (s : Store) : Prop where
  wellKeyed : s.WellKeyed
  nodes : ∀ id, id ∈ (s.tablesOf tenant).nodes → id ∈ ids
  kept : ∀ id ∈ sure, id ∈ (s.tablesOf tenant).nodes

/-- What is staged for nodes of a tenant keeps to the two lists, and every row is put under its own
key. -/
structure Transaction.Among (tenant : Tenant) (sure ids : List String) (tx : Transaction) :
    Prop where
  ownKeyed : tx.OwnKeyed
  nodes : ∀ id, id ∈ (tx.changesOf tenant).nodes → id ∈ ids
  kept : ∀ id ∈ sure, (tx.changesOf tenant).nodes[id]? ≠ some .delete

/-- The nodes of a tenant keep to two lists now, and will do so whatever others commit. -/
structure World.Among (tenant : Tenant) (sure ids : List String) (w : World) : Prop where
  store : w.store.Among tenant sure ids
  others : ∀ other ∈ w.conditions.others, other.2.Among tenant sure ids

structure Session.Among (tenant : Tenant) (sure ids : List String) (s : Session) : Prop where
  world : s.world.Among tenant sure ids
  tx : s.tx.Among tenant sure ids

variable {tenant : Tenant} {sure ids : List String}

theorem Store.Among.commit {s : Store} (hs : s.Among tenant sure ids) {tx : Transaction}
    (htx : tx.Among tenant sure ids) : (s.commit tx).Among tenant sure ids where
  wellKeyed := hs.wellKeyed.commit htx.ownKeyed
  nodes id hid := by
    rw [Store.tablesOf_commit] at hid
    rcases Staging.mem_of_mem_publish hid with htable | hstaged
    · exact hs.nodes id htable
    · exact htx.nodes id hstaged
  kept id hid := by
    rw [Store.tablesOf_commit]
    exact Staging.mem_publish_of_mem (hs.kept id hid) (htx.kept id hid)

theorem Store.among_begin (s : Store) (access : Access) (tenant : Tenant)
    (sure ids : List String) : (s.begin access).1.Among tenant sure ids where
  ownKeyed := s.ownKeyed_begin access
  nodes id hid := by
    rw [Store.changesOf_begin] at hid
    simp at hid
  kept id _ := by
    rw [Store.changesOf_begin]
    simp

/-- To update a node that is seen stages nothing for other ones. -/
theorem Transaction.Among.updateNode {tx tx' : Transaction} (htx : tx.Among tenant sure ids)
    {s : Store} (hs : s.Among tenant sure ids) {id : String} {u : RelevanceUpdate} {present : Bool}
    (hstage : s.updateNode tx tenant id u = .ok (present, tx')) : tx'.Among tenant sure ids := by
  have hwrite : (Write.updateNode id u).stage s tx tenant = .ok (.found present, tx') := by
    show (s.updateNode tx tenant id u).map (fun r => (Write.Answer.found r.1, r.2)) = _
    rw [hstage]
    rfl
  have hw := Transaction.checkWritable_eq_ok (Write.isWritable_of_stage hwrite)
  simp only [Store.updateNode, hw, bind, Except.bind, pure, Except.pure] at hstage
  split at hstage
  · rename_i hseen
    cases hstage
    refine ⟨htx.ownKeyed.stage hwrite, ?_, ?_⟩
    · intro other hother
      rw [Transaction.changesOf_mapNodes_self] at hother
      rcases Std.ExtTreeMap.mem_insert.1 hother with hid | hold
      · -- what is staged now is for the node that was seen
        rw [← Std.LawfulEqCmp.eq_of_compare hid]
        have hmem : id ∈ (s.view tx tenant).settled.nodes := by
          rw [Std.ExtTreeMap.mem_iff_isSome_getElem?, ← View.node?_eq_settled]
          exact hseen
        rcases Staging.mem_of_mem_publish hmem with htable | hstaged
        · exact hs.nodes id htable
        · exact htx.nodes id hstaged
      · exact htx.nodes other hold
    · intro other hother
      rw [Transaction.changesOf_mapNodes_self]
      exact Staging.stageUpdate_ne_delete u (htx.kept other hother)
  · cases hstage
    exact htx

namespace World

variable {w : World}

theorem Among.advance (h : w.Among tenant sure ids) (time : Nat) :
    (w.advance time).Among tenant sure ids :=
  ⟨h.store, h.others⟩

/-- Whatever others commit with a request was foreseen. -/
theorem Among.served (h : w.Among tenant sure ids) :
    Among tenant sure ids
      { w with served := w.served + 1, store := w.conditions.meanwhile w.served w.store } where
  others := h.others
  store := by
    have hfold : ∀ due : List (Nat × Transaction),
        (∀ other ∈ due, other.2.Among tenant sure ids) → ∀ s : Store, s.Among tenant sure ids →
          (due.foldl (fun store other => store.commit other.2) s).Among tenant sure ids := by
      intro due
      induction due with
      | nil => exact fun _ _ hs => hs
      | cons other due ih =>
          intro hdue s hs
          exact ih (fun o ho => hdue o (List.mem_cons_of_mem other ho)) _
            (hs.commit (hdue other List.mem_cons_self))
    exact hfold _ (fun other hother => h.others other (List.mem_filter.1 hother).1) _ h.store

/-- At first, there may be the nodes that there are and those that others put in, and there are sure
to be those that nobody deletes. -/
theorem among_keys (hstore : w.store.WellKeyed)
    (hothers : ∀ other ∈ w.conditions.others, other.2.OwnKeyed)
    (hsure : ∀ id ∈ sure, id ∈ (w.store.tablesOf tenant).nodes)
    (hkept : ∀ id ∈ sure, ∀ other ∈ w.conditions.others,
      (other.2.changesOf tenant).nodes[id]? ≠ some .delete) :
    w.Among tenant sure ((w.store.tablesOf tenant).nodes.keys ++
      w.conditions.others.flatMap fun other => (other.2.changesOf tenant).nodes.keys) := by
  refine ⟨⟨hstore, ?_, hsure⟩, ?_⟩
  · intro id hid
    exact List.mem_append_left _ (Std.ExtTreeMap.mem_keys.2 hid)
  · intro other hother
    refine ⟨hothers other hother, ?_, fun id hid => hkept id hid other hother⟩
    intro id hid
    exact List.mem_append_right _
      (List.mem_flatMap.2 ⟨other, hother, Std.ExtTreeMap.mem_keys.2 hid⟩)

end World

/-! ## What a transaction keeps -/

namespace Action

theorem among_request (r : Request) :
    Meets (request r) (World.Among tenant sure ids) (fun _ => World.Among tenant sure ids)
      (fun _ => World.Among tenant sure ids) :=
  Meets.request (fun _ time h => h.advance time) (fun _ h => h.served) r

/-- What was just begun has nothing staged. -/
theorem among_begin (access : Access) :
    Meets (begin access) (World.Among tenant sure ids)
      (fun tx w => Session.Among tenant sure ids ⟨w, tx⟩ ∧ tx.changesOf tenant = {})
      (fun _ => World.Among tenant sure ids) := by
  apply (among_request .begin).bind
  intro _ scope w hw
  exact ⟨⟨⟨⟨hw.store.wellKeyed, hw.store.nodes, hw.store.kept⟩, hw.others⟩,
    Store.among_begin w.store access tenant sure ids⟩, Store.changesOf_begin w.store access tenant⟩

end Action

namespace TxAction

theorem among_request (r : Request) (tx : Transaction) :
    Meets (Action.request r) (fun w => Session.Among tenant sure ids ⟨w, tx⟩)
      (fun _ w => Session.Among tenant sure ids ⟨w, tx⟩)
      (fun _ w => Session.Among tenant sure ids ⟨w, tx⟩) :=
  Meets.request (fun _ time h => ⟨h.world.advance time, h.tx⟩)
    (fun _ h => ⟨h.world.served, h.tx⟩) r

theorem among_updateNode (id : String) (u : RelevanceUpdate) :
    Meets (updateNode tenant id u) (Session.Among tenant sure ids)
      (fun _ => Session.Among tenant sure ids) (fun _ => Session.Among tenant sure ids) :=
  Meets.writing (among_request .updateNode) (fun _ _ h => h) fun _ _ _ h hrun =>
    ⟨h.world, h.tx.updateNode h.world.store hrun⟩

end TxAction

namespace Action

theorem among_commit (tx : Transaction) :
    Meets (commit tx) (fun w => Session.Among tenant sure ids ⟨w, tx⟩)
      (fun _ => World.Among tenant sure ids) (fun _ => World.Among tenant sure ids) := by
  apply ((TxAction.among_request .commit tx).weaken (fun _ h => h) (fun _ _ h => h)
    fun _ _ h => h.world).bind
  intro _ scope w hw
  exact ⟨hw.world.store.commit hw.tx, hw.world.others⟩

end Action

end SalientGraph
