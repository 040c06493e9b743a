import Mathlib.Algebra.Group.Nat.Defs
import SalientGraph.Proofs.Store.Transactions

/-!
# What becomes of a row

Writes that put nothing leave a row alone, remove it or update its relevance. So a
series of them removes it or updates it in order, and the count of accesses, the
boost and the successor that it ends with follow from the updates alone, up to the
largest number of 64 bits.
-/

namespace SalientGraph

/-! ## Series of updates -/

/-- `after` is what some updates make of `before`, as far as it does not depend on scores. -/
structure Relevance.Follows (before : Relevance) (us : List RelevanceUpdate)
    (after : Relevance) : Prop where
  accessCount : after.accessCount.toNat =
    min (2 ^ 64 - 1) (before.accessCount.toNat + us.countP (·.accessedAt.isSome))
  userBoosted : after.userBoosted = (before.userBoosted || us.any (·.boost))
  supersededBy : after.supersededBy =
    (us.filterMap (·.supersededBy)).getLast?.or before.supersededBy
  createdAt : after.createdAt = before.createdAt

namespace RelevanceUpdate

/-- Several updates of the relevance alone. -/
def applySeries (us : List RelevanceUpdate) (r : Relevance) : Relevance :=
  us.foldl (fun r u => u.apply r) r

theorem accessCount_accessed (r : Relevance) (t : Timestamp) :
    (r.accessed t).accessCount.toNat = min (2 ^ 64 - 1) (r.accessCount.toNat + 1) := by
  have hlt := r.accessCount.toNat_lt
  have hadd : (r.accessCount + 1).toNat = (r.accessCount.toNat + 1) % 2 ^ 64 := by
    simp [UInt64.toNat_add]
  unfold Relevance.accessed
  dsimp only
  -- the sum is zero only where it overflows
  split
  · rename_i hzero
    rw [hzero] at hadd
    simp only [UInt64.toNat_zero] at hadd
    omega
  · rename_i hne
    have hne' : (r.accessCount + 1).toNat ≠ 0 := by
      intro h
      exact hne (UInt64.toNat_inj.1 h)
    omega

theorem accessCount_apply (u : RelevanceUpdate) (r : Relevance) :
    (u.apply r).accessCount.toNat =
      min (2 ^ 64 - 1) (r.accessCount.toNat + if u.accessedAt.isSome then 1 else 0) := by
  have hlt := r.accessCount.toNat_lt
  obtain ⟨salience, updatedAt, boost, successor, accessedAt⟩ := u
  cases accessedAt with
  | none =>
      have hsame : (apply ⟨salience, updatedAt, boost, successor, none⟩ r).accessCount
          = r.accessCount := by
        cases boost <;> cases successor <;> rfl
      rw [hsame]
      simp only [Option.isSome_none, Bool.false_eq_true, if_false]
      omega
  | some t =>
      have hsame : (apply ⟨salience, updatedAt, boost, successor, some t⟩ r).accessCount
          = (r.accessed t).accessCount := by
        cases boost <;> cases successor <;> rfl
      rw [hsame, accessCount_accessed]
      simp

theorem userBoosted_apply (u : RelevanceUpdate) (r : Relevance) :
    (u.apply r).userBoosted = (r.userBoosted || u.boost) := by
  obtain ⟨salience, updatedAt, boost, successor, accessedAt⟩ := u
  cases boost <;> cases successor <;> cases accessedAt <;> simp [apply, applyInputs,
    Relevance.rescored, Relevance.accessed]

theorem supersededBy_apply (u : RelevanceUpdate) (r : Relevance) :
    (u.apply r).supersededBy = u.supersededBy.or r.supersededBy := by
  obtain ⟨salience, updatedAt, boost, successor, accessedAt⟩ := u
  cases boost <;> cases successor <;> cases accessedAt <;> rfl

theorem createdAt_apply (u : RelevanceUpdate) (r : Relevance) :
    (u.apply r).createdAt = r.createdAt := by
  obtain ⟨salience, updatedAt, boost, successor, accessedAt⟩ := u
  cases boost <;> cases successor <;> cases accessedAt <;> rfl

/-- No access, boost or successor in a series of updates is lost. -/
theorem follows_applySeries (us : List RelevanceUpdate) :
    ∀ r : Relevance, r.Follows us (applySeries us r) := by
  induction us with
  | nil =>
      intro r
      have hlt := r.accessCount.toNat_lt
      refine ⟨?_, ?_, rfl, rfl⟩
      · show r.accessCount.toNat = min (2 ^ 64 - 1) (r.accessCount.toNat + 0)
        omega
      · exact (Bool.or_false _).symm
  | cons u us ih =>
      intro r
      obtain ⟨hcount, hboost, hsuccessor, hcreated⟩ := ih (u.apply r)
      refine ⟨?_, ?_, ?_, ?_⟩
      · show (applySeries us (u.apply r)).accessCount.toNat = _
        rw [hcount, accessCount_apply, List.countP_cons]
        omega
      · show (applySeries us (u.apply r)).userBoosted = _
        rw [hboost, userBoosted_apply, List.any_cons, Bool.or_assoc]
      · show (applySeries us (u.apply r)).supersededBy = _
        rw [hsuccessor, supersededBy_apply]
        cases hu : u.supersededBy with
        | none => rw [List.filterMap_cons_none hu, Option.none_or]
        | some successor =>
            rw [List.filterMap_cons_some hu, List.getLast?_cons]
            cases (us.filterMap (·.supersededBy)).getLast? <;> rfl
      · show (applySeries us (u.apply r)).createdAt = _
        rw [hcreated, createdAt_apply]

end RelevanceUpdate

/-! ## Rows with a relevance -/

/-- To change the relevance of an entry is to replace it. -/
class LawfulRated (ρ : Type) [Rated ρ] : Prop where
  mapRelevance_eq (f : Relevance → Relevance) (row : ρ) :
    Rated.mapRelevance f row = Rated.mapRelevance (fun _ => f (Rated.relevance row)) row
  mapRelevance_mapRelevance (f g : Relevance → Relevance) (row : ρ) :
    Rated.mapRelevance f (Rated.mapRelevance g row) = Rated.mapRelevance (fun r => f (g r)) row
  mapRelevance_self (row : ρ) : Rated.mapRelevance (fun r => r) row = row

instance (π : Type) : LawfulRated (Node π) :=
  ⟨fun _ _ => rfl, fun _ _ _ => rfl, fun _ => rfl⟩

instance (π : Type) : LawfulRated (Edge π) :=
  ⟨fun _ _ => rfl, fun _ _ _ => rfl, fun _ => rfl⟩

theorem RelevanceUpdate.applyAll_eq_mapRelevance {ρ : Type} [Rated ρ] [LawfulRated ρ]
    (us : List RelevanceUpdate) :
    ∀ row : ρ, applyAll us row = Rated.mapRelevance (applySeries us) row := by
  induction us with
  | nil => exact fun row => (LawfulRated.mapRelevance_self row).symm
  | cons u us ih =>
      intro row
      show applyAll us (u.applyTo row) = _
      rw [ih, applyTo, LawfulRated.mapRelevance_mapRelevance]
      rfl

/-- What a write does to one row. -/
inductive Effect where
  | keep
  | remove
  | update (u : RelevanceUpdate)

namespace Effect

variable {ρ : Type} [Rated ρ]

/-- The row after the write, if there is one. -/
def result : Effect → Option ρ → Option ρ
  | keep, row => row
  | remove, _ => none
  | update u, row => row.map u.applyTo

def update? : Effect → Option RelevanceUpdate
  | update u => some u
  | _ => none

/-- The row after several writes. -/
def resultOf (effects : List Effect) (row : Option ρ) : Option ρ :=
  effects.foldl (fun row effect => effect.result row) row

theorem resultOf_none (effects : List Effect) : resultOf effects (none : Option ρ) = none := by
  induction effects with
  | nil => rfl
  | cons effect effects ih =>
      cases effect with
      | keep => exact ih
      | remove => exact ih
      | update u => exact ih

/-- What is removed once stays removed. -/
theorem resultOf_eq_none_of_mem {effects : List Effect} (h : remove ∈ effects) :
    ∀ row : Option ρ, resultOf effects row = none := by
  induction effects with
  | nil => contradiction
  | cons effect effects ih =>
      intro row
      rcases List.mem_cons.1 h with rfl | h
      · exact resultOf_none effects
      · exact ih h _

/-- What is never removed is updated in order. -/
theorem resultOf_some {effects : List Effect} (h : remove ∉ effects) :
    ∀ row : ρ, resultOf effects (some row)
      = some (RelevanceUpdate.applyAll (effects.filterMap update?) row) := by
  induction effects with
  | nil => exact fun _ => rfl
  | cons effect effects ih =>
      intro row
      have hrest : remove ∉ effects := fun hmem => h (List.mem_cons_of_mem _ hmem)
      cases effect with
      | keep => exact ih hrest row
      | remove => exact absurd List.mem_cons_self h
      | update u => exact ih hrest (u.applyTo row)

/-- `after` is what some writes make of the row `before`, if there was one. It is gone if one of
them removed it. Otherwise only its relevance has changed, and no update of it is lost. -/
structure Accounts (effects : List Effect) (before after : Option ρ) : Prop where
  gone : remove ∈ effects → after = none
  absent : before = none → after = none
  kept : ∀ row, before = some row → remove ∉ effects →
    ∃ r, after = some (Rated.mapRelevance (fun _ => r) row) ∧
      (Rated.relevance row).Follows (effects.filterMap update?) r

theorem accounts_resultOf [LawfulRated ρ] (effects : List Effect) (row : Option ρ) :
    Accounts effects row (resultOf effects row) := by
  refine ⟨fun h => resultOf_eq_none_of_mem h row, ?_, ?_⟩
  · rintro rfl
    exact resultOf_none effects
  · rintro row rfl h
    refine ⟨_, ?_, RelevanceUpdate.follows_applySeries _ _⟩
    rw [resultOf_some h, RelevanceUpdate.applyAll_eq_mapRelevance, LawfulRated.mapRelevance_eq]

end Effect

/-! ## Writes that put nothing -/

namespace Write

/-- Whether the write brings a row into the tables that may not have been there. -/
def isPut : Write → Bool
  | putNode _ | putEdge _ => true
  | _ => false

/-- What the write does to the node with the given identifier, unless it puts it. -/
def onNode (id : String) : Write → Effect
  | deleteNode other => if other = id then .remove else .keep
  | updateNode other u => if other = id then .update u else .keep
  | _ => .keep

/-- What the write does to the edge with the given key, unless it puts it. -/
def onEdge (key : EdgeKey) : Write → Effect
  | deleteEdge other => if other = key then .remove else .keep
  | updateEdge other u => if other = key then .update u else .keep
  | deleteEdgesTouching id => if key.source = id ∨ key.target = id then .remove else .keep
  | _ => .keep

theorem getElem?_nodes_applyTo {w : Write} (hw : w.isPut = false) (t : Tables) (id : String) :
    (w.applyTo t).nodes[id]? = (w.onNode id).result t.nodes[id]? := by
  cases w with
  | putNode _ => contradiction
  | deleteNode other =>
      simp only [applyTo, onNode, Std.ExtTreeMap.getElem?_erase, Std.LawfulEqOrd.compare_eq_iff_eq]
      split <;> rfl
  | updateNode other u =>
      simp only [applyTo, onNode, Std.ExtTreeMap.getElem?_modify,
        Std.LawfulEqOrd.compare_eq_iff_eq]
      split
      · rename_i h
        rw [h]
        rfl
      · rfl
  | putEdge _ => contradiction
  | deleteEdge _ => rfl
  | updateEdge _ _ => rfl
  | deleteEdgesTouching _ => rfl

theorem getElem?_edges_applyTo {w : Write} (hw : w.isPut = false) {t : Tables} (ht : t.WellKeyed)
    (key : EdgeKey) : (w.applyTo t).edges[key]? = (w.onEdge key).result t.edges[key]? := by
  cases w with
  | putNode _ => contradiction
  | deleteNode _ => rfl
  | updateNode _ _ => rfl
  | putEdge _ => contradiction
  | deleteEdge other =>
      simp only [applyTo, onEdge, Std.ExtTreeMap.getElem?_erase,
        Std.LawfulEqCmp.compare_eq_iff_eq]
      split <;> rfl
  | updateEdge other u =>
      simp only [applyTo, onEdge, Std.ExtTreeMap.getElem?_modify,
        Std.LawfulEqCmp.compare_eq_iff_eq]
      split
      · rename_i h
        rw [h]
        rfl
      · rfl
  | deleteEdgesTouching id =>
      rw [applyTo, Std.ExtTreeMap.getElem?_filter', onEdge]
      cases hrow : t.edges[key]? with
      | none => split <;> rfl
      | some row =>
          have htouches := touches_iff_key row id
          rw [ht.edges hrow] at htouches
          by_cases h : key.source = id ∨ key.target = id
          · rw [if_pos h, Option.filter_some_neg]
            · rfl
            · simp [htouches.2 h]
          · have huntouched : row.touches id = false := by
              rw [← Bool.not_eq_true, htouches]
              exact h
            rw [if_neg h, Option.filter_some_pos]
            · rfl
            · simp [huntouched]

/-- Writes that put nothing bring no keys in. -/
theorem within_applyTo {w : Write} (hw : w.isPut = false) {t : Tables} (ht : t.WellKeyed) :
    (w.applyTo t).Within t := by
  constructor
  · intro id h
    rw [getElem?_nodes_applyTo hw, h]
    exact Effect.resultOf_none [w.onNode id]
  · intro key h
    rw [getElem?_edges_applyTo hw ht, h]
    exact Effect.resultOf_none [w.onEdge key]

/-- What some writes do to a row of a tenant, if each of them does `on` to it. -/
def effectsIn (on : Write → Effect) (tenant : Tenant) (calls : List (Tenant × Write)) :
    List Effect :=
  (calls.filter fun call => call.1 = tenant).map fun call => on call.2

/-- A row that every write changes by its effect is changed by the effects of all of them. -/
theorem find_applyAll {ρ : Type} [Rated ρ] (find : Tables → Option ρ) (on : Write → Effect)
    (hfind : ∀ {w : Write}, w.isPut = false → ∀ {t : Tables}, t.WellKeyed →
      find (w.applyTo t) = (on w).result (find t))
    (tenant : Tenant) {calls : List (Tenant × Write)}
    (hcalls : ∀ call ∈ calls, call.2.isPut = false) :
    ∀ {graphs : Tenant → Tables}, (∀ tenant, (graphs tenant).WellKeyed) →
      find (applyAll calls graphs tenant) =
        Effect.resultOf (effectsIn on tenant calls) (find (graphs tenant)) := by
  induction calls with
  | nil => exact fun _ => rfl
  | cons call calls ih =>
      intro graphs hgraphs
      have hcall : call.2.isPut = false := hcalls call List.mem_cons_self
      have hrest := ih (fun other h => hcalls other (List.mem_cons_of_mem _ h))
        (wellKeyed_applyAt call.2 call.1 hgraphs)
      rw [applyAll, List.foldl_cons]
      refine hrest.trans ?_
      by_cases htenant : call.1 = tenant
      · subst htenant
        rw [applyAt, if_pos rfl, hfind hcall (hgraphs _), effectsIn, effectsIn,
          List.filter_cons_of_pos (by simp)]
        rfl
      · rw [applyAt, if_neg (Ne.symm htenant), effectsIn, effectsIn,
          List.filter_cons_of_neg (by simpa using htenant)]

end Write

end SalientGraph
