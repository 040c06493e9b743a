import SalientGraph.Proofs.Opening
import SalientGraph.Proofs.Ranking
import SalientGraph.Proofs.Store.Pages

/-!
# Hits of the single searches

Both the search for terms and the search for an embedding rank nodes of a graph, cut
off the ranking at a limit, and open what is left. So they find different nodes, no more than
the limit. What they answer is determined by the graph that they see.
-/

namespace SalientGraph

/-! ## Candidates -/

theorem map_node_vectorCandidates_sublist (embedding : List Single) (rows : List SealedNode) :
    ((rows.filterMap (vectorCandidate? embedding)).map (·.node)).Sublist rows := by
  induction rows with
  | nil => exact .slnil
  | cons row rows ih =>
      cases hc : vectorCandidate? embedding row with
      | none =>
          rw [List.filterMap_cons_none hc]
          exact ih.cons row
      | some c =>
          rw [List.filterMap_cons_some hc, List.map_cons, View.node_eq_of_vectorCandidate? hc]
          exact ih.cons_cons row

namespace View

variable {v : View} {limit : Nat}

theorem length_textCandidates_le (q : TextQuery) : (v.textCandidates q limit).length ≤ limit := by
  unfold textCandidates
  dsimp only
  split
  · exact Nat.zero_le _
  · exact length_best_le _ _

theorem length_vectorCandidates_le (embedding : List Single) :
    (v.vectorCandidates embedding limit).length ≤ limit :=
  length_best_le _ _

theorem nodup_ids_textCandidates (h : (v.nodes.map Node.id).Nodup) (q : TextQuery) :
    ((v.textCandidates q limit).map (·.node.id)).Nodup := by
  unfold textCandidates
  dsimp only
  split
  · exact .nil
  · apply nodup_map_best
    rw [List.map_map]
    exact ((List.filter_sublist.trans List.filter_sublist).map Node.id).nodup h

theorem nodup_ids_vectorCandidates (h : (v.nodes.map Node.id).Nodup) (embedding : List Single) :
    ((v.vectorCandidates embedding limit).map (·.node.id)).Nodup := by
  apply nodup_map_best
  have hsublist := (map_node_vectorCandidates_sublist embedding v.nodes).map Node.id
  rw [List.map_map] at hsublist
  exact hsublist.nodup h

end View

/-- The nodes of well-keyed tables have different identifiers. -/
theorem Tables.WellKeyed.nodup_ids_nodes {t : Tables} (ht : t.WellKeyed) :
    (t.view.nodes.map Node.id).Nodup := by
  rw [ht.map_id_nodes]
  exact Std.ExtTreeMap.nodup_keys

namespace Engine

open TxAction (Finds finds_reading finds_ofOutcome finds_request)

variable (e : Engine) {tenant : Tenant} {t : Tables} {v : View} {limit : Nat}

/-! ## What is opened of them -/

/-- The nodes of a graph that share terms with a query. -/
def textHitsIn (tenant : Tenant) (v : View) (q : TextQuery) (limit : Nat) :
    Except Fault (List ScoredNode) :=
  e.openCandidates tenant (v.textCandidates q limit)

/-- The nodes of a graph that are closest to an embedding. -/
def vectorHitsIn (tenant : Tenant) (v : View) (embedding : List Single) (limit : Nat) :
    Except Fault (List ScoredNode) :=
  e.openCandidates tenant (v.vectorCandidates embedding limit)

theorem length_of_openCandidates {found : List Candidate} {hits : List ScoredNode}
    (h : e.openCandidates tenant found = .ok hits) : hits.length = found.length := by
  have hids := congrArg List.length (e.ids_of_openCandidates h)
  rwa [List.length_map, List.length_map] at hids

theorem hits_of_textHitsIn (ht : t.WellKeyed) {q : TextQuery} {hits : List ScoredNode}
    (h : e.textHitsIn tenant t.view q limit = .ok hits) :
    hits.length ≤ limit ∧ (hits.map ScoredNode.id).Nodup := by
  rw [e.length_of_openCandidates h, e.ids_of_openCandidates h]
  exact ⟨View.length_textCandidates_le q, View.nodup_ids_textCandidates ht.nodup_ids_nodes q⟩

theorem hits_of_vectorHitsIn (ht : t.WellKeyed) {embedding : List Single} {hits : List ScoredNode}
    (h : e.vectorHitsIn tenant t.view embedding limit = .ok hits) :
    hits.length ≤ limit ∧ (hits.map ScoredNode.id).Nodup := by
  rw [e.length_of_openCandidates h, e.ids_of_openCandidates h]
  exact ⟨View.length_vectorCandidates_le embedding,
    View.nodup_ids_vectorCandidates ht.nodup_ids_nodes embedding⟩

/-! ## Runs -/

theorem finds_textSide (q : TextQuery) (limit : Nat) :
    Finds tenant v (e.textSide tenant q limit) fun hits _ =>
      e.textHitsIn tenant v q limit = .ok hits := by
  have hfullText : Finds tenant v (Action.inTransaction Action.hasFullText) fun _ n => n = 0 :=
    fun _ _ _ hs => ⟨0, rfl, hs⟩
  apply hfullText.bind
  rintro fullText _ rfl
  cases fullText with
  | false => exact .throw _
  | true =>
      apply Finds.step
      apply (finds_reading .textCandidates (·.textCandidates q limit)).bind
      rintro found _ ⟨rfl, rfl⟩
      exact (finds_ofOutcome _).weaken fun hits _ h => h.2

theorem finds_vectorSide (embedding : List Single) (limit : Nat) :
    Finds tenant v (e.vectorSide tenant embedding limit) fun hits _ =>
      e.vectorHitsIn tenant v embedding limit = .ok hits := by
  have honline : Finds tenant v (Action.inTransaction Action.vectorOnline) fun _ n => n = 0 :=
    fun _ _ _ hs => ⟨0, rfl, hs⟩
  have hrows : Finds tenant v (TxAction.vectorCandidates tenant embedding limit) fun found n =>
      n = 0 ∧ v.vectorCandidates embedding limit = found := by
    apply (finds_request .vectorCandidates).bind
    rintro _ _ rfl
    apply honline.bind
    rintro online _ rfl
    cases online with
    | false => exact .throw _
    | true =>
        cases embedding with
        | nil => exact .throw _
        | cons x xs =>
            intro asked scope s hs
            exact ⟨0, ⟨rfl, congrArg (·.vectorCandidates (x :: xs) limit) hs.view.symm⟩, hs⟩
  unfold vectorSide
  split
  · exact .throw _
  · apply honline.bind
    rintro online _ rfl
    cases online with
    | false => exact .throw _
    | true =>
        apply Finds.step
        apply hrows.bind
        rintro found _ ⟨rfl, rfl⟩
        exact (finds_ofOutcome _).weaken fun hits _ h => h.2

end Engine
end SalientGraph
