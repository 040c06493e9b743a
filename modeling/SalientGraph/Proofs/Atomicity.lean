import SalientGraph.Proofs.Failures

/-!
# Changes to several nodes at once

A successor is marked along with the score of the node that it succeeds, and accesses
are counted for a whole list of nodes. Either of these is staged row by row, and the
caller may give up between any two rows, or the store may fail. Nothing of it shows
before the commit, and then all of it does.
-/

namespace SalientGraph

namespace Tables

/-- The tables in which a node is superseded by another one, and both are scored at one time. -/
def withSuccessor (t : Tables) (old new : SealedNode) (now : Timestamp) : Tables :=
  { t with
    nodes := (t.nodes.insert old.id
      (old.mapRelevance fun r => Relevance.scoredAt { r with supersededBy := some new.id } now)).insert
        new.id (new.mapRelevance (·.scoredAt now)) }

/-- The tables in which every node of a list has been accessed once more, and is scored for it. -/
def withAccesses (t : Tables) (ids : List String) (now : Timestamp) : Tables :=
  { t with
    nodes := t.nodes.map fun id row =>
      if id ∈ ids then row.mapRelevance fun r => (r.accessed now).scoredAt now else row }

theorem ext_nodes {s t : Tables} (hedges : s.edges = t.edges)
    (hnodes : ∀ id : String, s.nodes[id]? = t.nodes[id]?) : s = t := by
  cases s
  cases t
  cases hedges
  cases Std.ExtTreeMap.ext_getElem? hnodes
  rfl

end Tables

namespace RelevanceUpdate

/-- To be scored for an entry makes no difference to the inputs of the formula. -/
theorem applyInputs_scoredFor (u : RelevanceUpdate) (r s : Relevance) :
    (u.scoredFor r).applyInputs s = u.applyInputs s := by
  cases u
  rfl

theorem apply_scoredFor (u : RelevanceUpdate) (r : Relevance) :
    (u.scoredFor r).apply r = (u.applyInputs r).scoredAt u.updatedAt := by
  rw [apply, applyInputs_scoredFor, Relevance.scoredAt]
  rfl

end RelevanceUpdate

namespace Rating

/-- What an update does to a row is scored as a whole. -/
theorem rated_eq (row : SealedNode) (u : RelevanceUpdate) :
    rated ⟨row, u⟩ = row.mapRelevance fun r => (u.applyInputs r).scoredAt u.updatedAt := by
  show { row with relevance := (u.scoredFor row.relevance).apply row.relevance } = _
  rw [RelevanceUpdate.apply_scoredFor]
  rfl

/-- Ratings that fit are written as if each row were put in place of the one found. -/
theorem Fit.applyEach_eq {rs : List Rating} :
    ∀ {t : Tables}, Fit t rs → Write.applyEach (rs.map write) t =
      { t with nodes := rs.foldl (fun nodes r => nodes.insert r.row.id r.rated) t.nodes } := by
  induction rs with
  | nil => exact fun _ => rfl
  | cons r rs ih =>
      intro t h
      have hfirst : r.write.applyTo t = { t with nodes := t.nodes.insert r.row.id r.rated } := by
        refine Tables.ext_nodes (edges_applyTo_write r t) ?_
        intro id
        by_cases hid : r.row.id = id
        · rw [← hid, getElem?_applyTo_write_self (h.found r List.mem_cons_self)]
          exact Std.ExtTreeMap.getElem?_insert_self.symm
        · rw [getElem?_applyTo_write_of_ne hid, Std.ExtTreeMap.getElem?_insert,
            if_neg fun heq => hid (Std.LawfulEqOrd.eq_of_compare heq)]
      rw [List.map_cons, Write.applyEach_cons, ih h.tail, hfirst]
      rfl

end Rating

namespace Call

variable {t : Tables} (ht : t.WellKeyed) (now : Timestamp)
include ht

theorem applyEach_updates_supersedeNode {old new : String} {oldRow newRow : SealedNode}
    (hne : old ≠ new) (hold : t.nodes[old]? = some oldRow) (hnew : t.nodes[new]? = some newRow) :
    Write.applyEach ((supersedeNode old new).updates now t) t =
      t.withSuccessor oldRow newRow now := by
  have hfit := ht.fit_ratings now (.supersedeNode old new)
  obtain rfl := ht.nodes hnew
  show Write.applyEach (((supersedeNode old newRow.id).ratings now t).map Rating.write) t = _
  rw [hfit.applyEach_eq, ratings_supersedeNode hne hold hnew, List.foldl_cons, List.foldl_cons,
    List.foldl_nil, Rating.rated_eq, Rating.rated_eq]
  rfl

theorem applyEach_updates_recordAccess (ids : List String) :
    Write.applyEach ((recordAccess ids).updates now t) t = t.withAccesses ids now := by
  have hfit := ht.fit_ratings now (.recordAccess ids)
  show Write.applyEach (((recordAccess ids).ratings now t).map Rating.write) t = _
  refine Tables.ext_nodes (Rating.edges_applyEach _ t) ?_
  intro id
  rw [Tables.withAccesses, Std.ExtTreeMap.getElem?_map]
  by_cases hid : id ∈ ids
  · cases hrow : t.nodes[id]? with
    | none =>
        -- the nodes that are rated are there, so this one is none of them
        rw [Rating.getElem?_applyEach_of_ne, hrow]
        · rfl
        · rintro r hr rfl
          rw [hfit.found r hr] at hrow
          contradiction
    | some row =>
        have hrated : (⟨row, .ofAccess now⟩ : Rating) ∈ (recordAccess ids).ratings now t :=
          List.mem_map_of_mem (List.mem_filterMap.2 ⟨id, mem_distinct.2 hid, hrow⟩)
        have hwritten := hfit.getElem?_applyEach _ hrated
        rw [ht.nodes hrow] at hwritten
        rw [hwritten, Option.map_some, if_pos hid, Rating.rated_eq]
        rfl
  · -- what is rated was asked for
    rw [Rating.getElem?_applyEach_of_ne]
    · cases t.nodes[id]? with
      | none => rfl
      | some row => rw [Option.map_some, if_neg hid]
    · intro r hr heq
      obtain ⟨row, hrow, rfl⟩ := List.mem_map.1 hr
      obtain ⟨other, hother, hfound⟩ := List.mem_filterMap.1 hrow
      apply hid
      rw [← heq, ht.nodes hfound]
      exact mem_distinct.1 hother

end Call

/-! ## Calls -/

namespace Action

variable {α β : Type} {body : TxAction α} {described : α → (Tenant → Tables) → Prop}
  {tell : α → Action Unit} {events : α → List ChangeEvent} {outcome : α → Except Fault β}
  {scope : Scope} {v : World}

theorem finalState_ofOutcome (outcome : Except Fault α) (scope : Scope) (w : World) :
    finalState (ofOutcome outcome scope w) = w := by
  cases outcome <;> rfl

/-- What begins with a transaction and then does no more than tell of it and give an outcome back,
leaves the world still, or what its transaction has made is committed. -/
theorem finalState_of_published (hbody : Session.stillness.Obeys body)
    (hmakes : body.Makes v.wall v.store.tablesOf described) (halone : v.conditions.others = [])
    (hkeyed : v.store.WellKeyed)
    (htell : ∀ a u, tell a scope u = .ok () { u with announced := u.announced ++ events a }) :
    let u := finalState (published body tell outcome scope v)
    v.Still u ∨ ∃ a graphs, described a graphs ∧ v.Becomes graphs (events a) u := by
  dsimp only
  rcases published_cases hbody hmakes halone hkeyed htell outcome with
    ⟨g, u, hrun, hu⟩ | ⟨a, graphs, u, hmade, hu, hrun⟩
  · rw [hrun]
    exact .inl hu
  · rw [hrun, finalState_ofOutcome]
    exact .inr ⟨a, graphs, hmade, hu⟩

end Action

namespace Engine

open SalientGraph.Action (finalState_of_published)

variable (e : Engine) {tenant : Tenant} {v : World}

section
variable (halone : v.conditions.others = []) (hkeyed : v.store.WellKeyed)
include halone hkeyed

/-- However a call ends that marks a successor, the world is still or the successor is marked. -/
theorem supersedeNode_cases (old new : String) (scope : Scope) :
    let u := finalState (e.supersedeNode tenant old new scope v)
    v.Still u ∨ ∃ oldRow newRow time, old ≠ new ∧
      (v.store.tablesOf tenant).nodes[old]? = some oldRow ∧
      (v.store.tablesOf tenant).nodes[new]? = some newRow ∧
      u.store.tablesOf tenant =
        (v.store.tablesOf tenant).withSuccessor oldRow newRow (v.wall time) ∧
      ∀ other, other ≠ tenant → u.store.tablesOf other = v.store.tablesOf other := by
  dsimp only
  unfold supersedeNode
  split
  · exact .inl (.refl v)
  · rename_i hne
    have hbody := (TxAction.editable_stillness tenant).succeed old new
    have htell : ∀ (_ : SealedNode) (u : World),
        Action.announce (.nodeSuperseded tenant old new) scope u =
          .ok () { u with announced := u.announced ++ [.nodeSuperseded tenant old new] } :=
      fun _ _ => rfl
    rcases finalState_of_published hbody (makes_succeed hne) halone hkeyed htell with
      hstill | ⟨rated, graphs, ⟨oldRow, newRow, time, hold, hnew, _, rfl⟩, hcommitted⟩
    · exact .inl hstill
    · refine .inr ⟨oldRow, newRow, time, hne, hold, hnew, ?_, ?_⟩
      · refine (hcommitted.tables tenant).trans ?_
        rw [Write.applyEachAt_self]
        exact Call.applyEach_updates_supersedeNode (hkeyed tenant) _ hne hold hnew
      · intro other hother
        exact (hcommitted.tables other).trans (Write.applyEachAt_of_ne _ hother _)

/-- However a call ends that counts accesses, the world is still or every one of them counts. -/
theorem recordAccess_cases (ids : List String) (scope : Scope) :
    let u := finalState (e.recordAccess tenant ids scope v)
    v.Still u ∨ ∃ time,
      u.store.tablesOf tenant = (v.store.tablesOf tenant).withAccesses ids (v.wall time) ∧
      ∀ other, other ≠ tenant → u.store.tablesOf other = v.store.tablesOf other := by
  dsimp only
  rw [recordAccess_eq_tellAccesses]
  split
  · exact .inl (.refl v)
  · have hbody := (TxAction.editable_stillness tenant).count (distinct ids)
    have htell := fun (rows : List SealedNode) =>
      tellAccesses_apply tenant (rows.map Node.id) scope
    rcases finalState_of_published hbody (makes_count ids) halone hkeyed htell with
      hstill | ⟨rated, graphs, ⟨time, _, rfl⟩, hcommitted⟩
    · exact .inl hstill
    · refine .inr ⟨time, ?_, ?_⟩
      · refine (hcommitted.tables tenant).trans ?_
        rw [Write.applyEachAt_self]
        exact Call.applyEach_updates_recordAccess (hkeyed tenant) _ ids
      · intro other hother
        exact (hcommitted.tables other).trans (Write.applyEachAt_of_ne _ hother _)

end

/-- While nobody else commits anything, to mark a successor and to count accesses change the
committed graphs altogether or not at all, however long each request to the store takes, whether or
not it fails, and whenever the scope is over. -/
theorem changes_of_several_nodes_are_all_or_nothing (w : World) (hstore : w.store.Reached)
    (halone : w.conditions.others = []) (tenant : Tenant) (scope : Scope) (old new : String)
    (ids : List String) :
    (let v := finalState (e.supersedeNode tenant old new scope w)
     (∀ other, v.store.tablesOf other = w.store.tablesOf other) ∨
        ∃ oldRow newRow time, old ≠ new ∧
          (w.store.tablesOf tenant).nodes[old]? = some oldRow ∧
          (w.store.tablesOf tenant).nodes[new]? = some newRow ∧
          v.store.tablesOf tenant =
            (w.store.tablesOf tenant).withSuccessor oldRow newRow (w.wall time) ∧
          ∀ other, other ≠ tenant → v.store.tablesOf other = w.store.tablesOf other) ∧
    (let v := finalState (e.recordAccess tenant ids scope w)
     (∀ other, v.store.tablesOf other = w.store.tablesOf other) ∨
        ∃ time,
          v.store.tablesOf tenant = (w.store.tablesOf tenant).withAccesses ids (w.wall time) ∧
          ∀ other, other ≠ tenant → v.store.tablesOf other = w.store.tablesOf other) := by
  constructor
  · rcases supersedeNode_cases e halone hstore.wellKeyed old new scope with hstill | hmarked
    · exact .inl (hstill.tablesOf_eq halone)
    · exact .inr hmarked
  · rcases recordAccess_cases e halone hstore.wellKeyed ids scope with hstill | hcounted
    · exact .inl (hstill.tablesOf_eq halone)
    · exact .inr hcounted

/-- Each update of a node takes ten milliseconds, of which the caller has fifteen. That is not enough
to mark a successor, of which nothing is left, but it is to count two accesses to one node, which
count as one. -/
theorem changes_of_several_nodes_are_all_or_nothing_at_a_deadline :
    let e : Engine :=
      { nonce := fun _ => [], shuffle := fun _ ids => ids, shuffle_perm := fun _ _ => .refl _ }
    let row (id : String) : SealedNode := ⟨id, "concept", id, ⟨[]⟩, none, default⟩
    let tx := ((Store.begin {} .readWrite).1.stageNode ⟨"acme"⟩ "a" (.put (row "a"))).stageNode
      ⟨"acme"⟩ "b" (.put (row "b"))
    let slow : Conditions := { delay := fun _ r => if r = .updateNode then 10 else 0 }
    let w : World := { World.start {} default with store := Store.commit {} tx, conditions := slow }
    let scope : Scope := ⟨some 15, none⟩
    let before := w.store.tablesOf ⟨"acme"⟩
    let marking := e.supersedeNode ⟨"acme"⟩ "a" "b" scope w
    let counting := e.recordAccess ⟨"acme"⟩ ["a", "a"] scope w
    w.store.Reached ∧ w.conditions.others = [] ∧
      fault? marking = some .deadlineExceeded ∧
      (∀ other, (finalState marking).store.tablesOf other = w.store.tablesOf other) ∧
      fault? counting = none ∧
      (∃ time, (finalState counting).store.tablesOf ⟨"acme"⟩ =
        before.withAccesses ["a", "a"] (w.wall time)) ∧
      (finalState counting).store.tablesOf ⟨"acme"⟩ ≠ before := by
  intro e row tx slow w scope before marking counting
  have hmade : tx.Made :=
    .staged {} (.putNode (row "b")) ⟨"acme"⟩
      (.staged {} (.putNode (row "a")) ⟨"acme"⟩ (.begun {} .readWrite) rfl) rfl
  have hstore : w.store.Reached := .committed (.empty rfl) hmade rfl
  obtain ⟨hmarking, hcounting⟩ :=
    changes_of_several_nodes_are_all_or_nothing e w hstore rfl ⟨"acme"⟩ scope "a" "b" ["a", "a"]
  let count (t : Tables) : Option UInt64 := t.nodes["a"]?.map (·.relevance.accessCount)
  have hchanged : (finalState counting).store.tablesOf ⟨"acme"⟩ ≠ before := by
    intro hsame
    have hcount : count ((finalState counting).store.tablesOf ⟨"acme"⟩) = count before :=
      congrArg count hsame
    revert hcount
    decide +kernel
  refine ⟨hstore, rfl, by decide +kernel, ?_, by decide +kernel, ?_, hchanged⟩
  · rcases hmarking with hunchanged | ⟨oldRow, newRow, time, _, hold, hnew, hmarked, _⟩
    · exact hunchanged
    · -- no successor shows
      have hfresh : ((finalState marking).store.tablesOf ⟨"acme"⟩).nodes["a"]?.map
          (·.relevance.supersededBy) = some none := by
        decide +kernel
      rw [hmarked, Tables.withSuccessor, (hstore.wellKeyed _).nodes hold,
        (hstore.wellKeyed _).nodes hnew, Std.ExtTreeMap.getElem?_insert, if_neg (by decide),
        Std.ExtTreeMap.getElem?_insert_self] at hfresh
      cases Option.some.inj hfresh
  · rcases hcounting with hunchanged | ⟨time, hcounted, _⟩
    · exact absurd (hunchanged ⟨"acme"⟩) hchanged
    · exact ⟨time, hcounted⟩

end Engine
end SalientGraph
