import Mathlib.Data.Set.Card
import SalientGraph.Proofs.Store.Reached

/-!
# Scans with a limit

A transaction lists the edges that it sees in two passes, over the committed ones that it
has left alone and over those that it has written. No key is on both lists, and the
second pass gets the room that the first one has left. So a scan is as long as its limit
allows, and one that is shorter has left out nothing.
-/

namespace SalientGraph

namespace View

variable {v : View} {keep : SealedEdge → Bool} {limit : Nat} {found : List SealedEdge}

/-- The keys of the edges that are seen and pass `keep`. -/
def passing (v : View) (keep : SealedEdge → Bool) : Set EdgeKey :=
  {key | ∃ row, v.edge? key = some row ∧ keep row = true}

/-- What a scan is to find: edges that are seen, each under another key, and pass `keep`, and as many
of them as there are and the limit allows. -/
structure Scans (v : View) (keep : SealedEdge → Bool) (limit : Nat) (found : List SealedEdge) :
    Prop where
  seen : ∃ keys : List EdgeKey, keys.Nodup ∧ keys.map v.edge? = found.map some
  passes : ∀ row ∈ found, keep row = true
  finite : (v.passing keep).Finite
  length : found.length = min limit (v.passing keep).ncard
  complete : found.length < limit →
    ∀ key row, v.edge? key = some row → keep row = true → row ∈ found

/-- The edges that are seen and pass `keep`, each with its key, in the order of `edges`. -/
def passingEntries (v : View) (keep : SealedEdge → Bool) : List (EdgeKey × SealedEdge) :=
  (v.changes.edges.entries v.tables.edges).filter fun entry => keep entry.2

theorem mem_passingEntries {key : EdgeKey} {row : SealedEdge} :
    (key, row) ∈ v.passingEntries keep ↔ v.edge? key = some row ∧ keep row = true := by
  rw [passingEntries, List.mem_filter, Staging.mem_entries, edge?]

theorem nodup_keys_passingEntries (v : View) (keep : SealedEdge → Bool) :
    ((v.passingEntries keep).map (·.1)).Nodup := by
  have hpairwise := Staging.pairwise_entries v.changes.edges v.tables.edges
  exact List.pairwise_map.2 (hpairwise.filter _)

theorem scanEdges_eq_map (v : View) (limit : Nat) (keep : SealedEdge → Bool) :
    v.scanEdges limit keep = ((v.passingEntries keep).take limit).map (·.2) := by
  rw [scanEdges_eq_take, edges, ← Staging.map_snd_entries, List.filter_map, ← List.map_take]
  rfl

theorem passing_eq_toFinset (v : View) (keep : SealedEdge → Bool) :
    v.passing keep = ((v.passingEntries keep).map (·.1)).toFinset := by
  ext key
  rw [Finset.mem_coe, List.mem_toFinset, List.mem_map]
  constructor
  · rintro ⟨row, hrow⟩
    exact ⟨(key, row), mem_passingEntries.2 hrow, rfl⟩
  · rintro ⟨⟨_, row⟩, hentry, rfl⟩
    exact ⟨row, mem_passingEntries.1 hentry⟩

theorem ncard_passing (v : View) (keep : SealedEdge → Bool) :
    (v.passing keep).ncard = (v.passingEntries keep).length := by
  rw [passing_eq_toFinset, Set.ncard_coe_finset,
    List.toFinset_card_of_nodup (nodup_keys_passingEntries v keep), List.length_map]

/-- The keys under which the rows of some of the entries are seen. -/
theorem map_edge?_keys {entries : List (EdgeKey × SealedEdge)}
    (h : entries.Sublist (v.passingEntries keep)) :
    (entries.map (·.1)).map v.edge? = (entries.map (·.2)).map some := by
  rw [List.map_map, List.map_map]
  apply List.map_congr_left
  rintro ⟨key, row⟩ hentry
  exact (mem_passingEntries.1 (h.subset hentry)).1

theorem scans_scanEdges (v : View) (keep : SealedEdge → Bool) (limit : Nat) :
    v.Scans keep limit (v.scanEdges limit keep) where
  seen := by
    have hfirst := List.take_sublist limit (v.passingEntries keep)
    refine ⟨((v.passingEntries keep).take limit).map (·.1), ?_, ?_⟩
    · exact (hfirst.map _).nodup (nodup_keys_passingEntries v keep)
    · rw [scanEdges_eq_map]
      exact map_edge?_keys hfirst
  passes row hrow := (mem_edges_of_mem_scanEdges hrow).2
  finite := by
    rw [passing_eq_toFinset]
    exact Finset.finite_toSet _
  length := by rw [scanEdges_eq_map, List.length_map, List.length_take, ncard_passing]
  complete hroom key row hrow hkeep := by
    rw [scanEdges_of_length_lt hroom]
    exact List.mem_filter.2 ⟨mem_edges.2 ⟨key, hrow⟩, hkeep⟩

/-- If every edge is seen under its own key, these are the keys of what has been found. -/
theorem map_key_eq (hown : ∀ {key row}, v.edge? key = some row → row.key = key) :
    ∀ {keys : List EdgeKey} {found : List SealedEdge}, keys.map v.edge? = found.map some →
      found.map Edge.key = keys
  | [], [], _ => rfl
  | key :: keys, row :: found, h => by
      obtain ⟨hrow, hrest⟩ := List.cons.inj h
      rw [List.map_cons, hown hrow, map_key_eq hown hrest]

/-- If every edge is seen under its own key, so is each that a scan has found, and no two of these have
the same one. -/
theorem Scans.seen_own (h : v.Scans keep limit found)
    (hown : ∀ {key row}, v.edge? key = some row → row.key = key) :
    (found.map Edge.key).Nodup ∧ (found.map Edge.key).map v.edge? = found.map some := by
  obtain ⟨keys, hnodup, hkeys⟩ := h.seen
  rw [map_key_eq hown hkeys]
  exact ⟨hnodup, hkeys⟩

end View

/-- Over all tables and everything that a transaction can have staged for them: a scan for the edges
that pass any test finds as many of those that the transaction sees as its limit allows, each under
another key, and all of them if it comes back with fewer. In every store that can come about, these are
the edges' own keys. -/
theorem scans_leave_out_edges_only_when_full :
    (∀ (v : View) (keep : SealedEdge → Bool) (limit : Nat),
      v.Scans keep limit (v.scanEdges limit keep)) ∧
    (∀ (store : Store) (tx : Transaction), store.Reached → tx.Made →
      ∀ (tenant : Tenant) (keep : SealedEdge → Bool) (limit : Nat),
        let v := store.view tx tenant
        let ownKeys := (v.scanEdges limit keep).map Edge.key
        ownKeys.Nodup ∧ ownKeys.map v.edge? = (v.scanEdges limit keep).map some) := by
  refine ⟨View.scans_scanEdges, ?_⟩
  intro store tx hstore htx tenant keep limit v ownKeys
  -- rows are staged under the keys that they are of, and updates of them leave these as they are
  have hkeyed := hstore.wellKeyed_settled htx tenant
  refine (View.scans_scanEdges v keep limit).seen_own ?_
  intro key row hrow
  rw [View.edge?_eq_settled] at hrow
  exact hkeyed.edges hrow

/-- Of four committed edges that leave a node, a transaction removes the first, updates the second and
the third, of which another transaction then removes the third, and leaves the last one alone; and it
puts a fifth one and updates it. A scan for two of them is full with the one that was left alone and
the first of those that were written; one for four comes back with all three that are seen. -/
theorem scans_leave_out_edges_only_when_full_of_staged_edges :
    let acme : Tenant := ⟨"acme"⟩
    let edge (target : String) : SealedEdge := ⟨"a", target, "next", 1.0, ⟨[]⟩, default⟩
    let key (target : String) : EdgeKey := ⟨"a", target, "next"⟩
    let u : RelevanceUpdate := .unscored default
    let put := ["b", "c", "d", "e"].foldl
      (fun tx target => tx.stageEdge acme (key target) (.put (edge target)))
      (Store.begin {} .readWrite).1
    let earlier := Store.commit {} put
    let removed := (earlier.begin .readWrite).1.stageEdge acme (key "d") .delete
    let store := earlier.commit removed
    let deleted := (earlier.begin .readWrite).1.stageEdge acme (key "b") .delete
    let updated := (deleted.mapEdges acme (·.stageUpdate (key "c") u)).mapEdges acme
      (·.stageUpdate (key "d") u)
    let tx := (updated.stageEdge acme (key "f") (.put (edge "f"))).mapEdges acme
      (·.stageUpdate (key "f") u)
    let v := store.view tx acme
    let keep : SealedEdge → Bool := fun e => e.source == "a"
    store.Reached ∧ tx.Made ∧
      v.Scans keep 2 (v.scanEdges 2 keep) ∧
      (v.scanEdges 2 keep).map Edge.key = [key "e", key "c"] ∧
      v.Scans keep 4 (v.scanEdges 4 keep) ∧
      (v.scanEdges 4 keep).map Edge.key = [key "e", key "c", key "f"] ∧
      ((v.scanEdges 4 keep).map Edge.key).Nodup := by
  intro acme edge key u put earlier removed store deleted updated tx v keep
  have hput : put.Made :=
    .staged {} (.putEdge (edge "e")) acme (.staged {} (.putEdge (edge "d")) acme
      (.staged {} (.putEdge (edge "c")) acme (.staged {} (.putEdge (edge "b")) acme
        (.begun {} .readWrite) rfl) rfl) rfl) rfl
  have hearlier : earlier.Reached := .committed (s := {}) (.empty rfl) hput rfl
  have hremoved : removed.Made :=
    (Transaction.Made.begun earlier .readWrite).deleteEdge (s := earlier) rfl (by decide +kernel)
  have hstore : store.Reached := .committed hearlier hremoved rfl
  have hdeleted : deleted.Made :=
    (Transaction.Made.begun earlier .readWrite).deleteEdge (s := earlier) rfl (by decide +kernel)
  have hupdated : updated.Made :=
    (hdeleted.updateEdge (s := earlier) rfl (by decide +kernel) u).updateEdge (s := earlier) rfl
      (by decide +kernel) u
  have hmade : tx.Made :=
    (Transaction.Made.staged store (.putEdge (edge "f")) acme hupdated rfl).updateEdge (s := store) rfl
      (by decide +kernel) u
  have hfull : (v.scanEdges 2 keep).map Edge.key = [key "e", key "c"] := by decide +kernel
  have hall : (v.scanEdges 4 keep).map Edge.key = [key "e", key "c", key "f"] := by decide +kernel
  obtain ⟨hscans, hown⟩ := scans_leave_out_edges_only_when_full
  exact ⟨hstore, hmade, hscans v keep 2, hfull, hscans v keep 4, hall,
    (hown store tx hstore hmade acme keep 4).1⟩

end SalientGraph
