import Std.Data.ExtTreeMap
import SalientGraph.Relevance.Rated

/-!
# Staged rows

A transaction writes nothing into the tables before it commits. It stages its writes,
at most one for each key, and sees them laid over the committed rows. An update of
relevance is staged as such and applied to the row as it is when the transaction
commits, so that it neither overwrites what others committed meanwhile nor brings
back a row that they deleted.
-/

namespace SalientGraph

/-- What a transaction has staged for one key. -/
inductive Staged (ρ : Type) where
  | put (row : ρ)
  | delete
  | update (changes : List RelevanceUpdate)

namespace Staged

variable {ρ : Type} [Rated ρ]

/-- What becomes of the committed row, if there is one. -/
def result : Staged ρ → Option ρ → Option ρ
  | .put row, _ => some row
  | .delete, _ => none
  | .update changes, committed => committed.map (RelevanceUpdate.applyAll changes)

/-- The staged write with one more update. -/
def absorb (u : RelevanceUpdate) : Staged ρ → Staged ρ
  | .put row => .put (u.applyTo row)
  | .delete => .delete
  | .update changes => .update (changes ++ [u])

/-- An update on top of a staged write changes the row that comes out. -/
theorem result_absorb (u : RelevanceUpdate) (s : Staged ρ) (committed : Option ρ) :
    (s.absorb u).result committed = (s.result committed).map u.applyTo := by
  cases s with
  | put row => rfl
  | delete => rfl
  | update changes =>
    cases committed with
    | none => rfl
    | some row => simp [absorb, result, RelevanceUpdate.applyAll]

end Staged

/-- Committed rows by key. -/
abbrev Table (κ ρ : Type) (order : κ → κ → Ordering) : Type :=
  Std.ExtTreeMap κ ρ order

/-- Staged writes by key. -/
abbrev Staging (κ ρ : Type) (order : κ → κ → Ordering) : Type :=
  Std.ExtTreeMap κ (Staged ρ) order

namespace Staging

variable {κ ρ : Type} {order : κ → κ → Ordering} [Std.TransCmp order] [Rated ρ]

/-- The row of a key as the transaction sees it. -/
def find? (staging : Staging κ ρ order) (table : Table κ ρ order) (key : κ) : Option ρ :=
  match staging[key]? with
  | some staged => staged.result table[key]?
  | none => table[key]?

/-- All rows that the transaction sees: the committed rows that it has left alone, then those that
it has written, either in the order of their keys. -/
def rows (staging : Staging κ ρ order) (table : Table κ ρ order) : List ρ :=
  ((table.toList.filter fun entry => !staging.contains entry.1).map (·.2))
    ++ staging.toList.filterMap fun entry => entry.2.result table[entry.1]?

/-- The first `limit` rows that pass `keep`, in two passes over what `rows` lists: the rows that the
transaction has written get the room that the committed ones have left. -/
def scan (staging : Staging κ ρ order) (table : Table κ ρ order) (limit : Nat) (keep : ρ → Bool) :
    List ρ :=
  let alone := ((table.toList.filter fun entry =>
    !staging.contains entry.1 && keep entry.2).map (·.2)).take limit
  let room := limit - alone.length
  alone ++ ((staging.toList.filterMap fun entry =>
    entry.2.result table[entry.1]?).filter keep).take room

/-- Stages an update on top of whatever is staged for a key. -/
def stageUpdate (staging : Staging κ ρ order) (key : κ) (u : RelevanceUpdate) :
    Staging κ ρ order :=
  staging.insert key ((staging[key]?.getD (.update [])).absorb u)

/-- The table after the staged writes. -/
def publish (staging : Staging κ ρ order) (table : Table κ ρ order) : Table κ ρ order :=
  staging.toList.foldl (fun table entry => table.alter entry.1 entry.2.result) table

/-- The two passes come to one over all rows. -/
theorem scan_eq_take (staging : Staging κ ρ order) (table : Table κ ρ order) (limit : Nat)
    (keep : ρ → Bool) :
    staging.scan table limit keep = ((staging.rows table).filter keep).take limit := by
  have halone : ((table.toList.filter fun entry => !staging.contains entry.1).map (·.2)).filter keep =
      (table.toList.filter fun entry => !staging.contains entry.1 && keep entry.2).map (·.2) := by
    rw [List.filter_map, List.filter_filter]
    simp only [Function.comp_def, Bool.and_comm]
  rw [rows, List.filter_append, halone, List.take_append, scan, List.length_take]
  congr 2
  omega

theorem find?_insert_self (staging : Staging κ ρ order) (table : Table κ ρ order) (key : κ)
    (s : Staged ρ) : find? (staging.insert key s) table key = s.result table[key]? := by
  simp [find?]

theorem find?_insert_of_ne (staging : Staging κ ρ order) (table : Table κ ρ order) {key other : κ}
    (s : Staged ρ) (h : order key other ≠ .eq) :
    find? (staging.insert key s) table other = find? staging table other := by
  simp [find?, Std.ExtTreeMap.getElem?_insert, h]

/-- An update shows at once in the row that it is staged for. -/
theorem find?_stageUpdate_self (staging : Staging κ ρ order) (table : Table κ ρ order) (key : κ)
    (u : RelevanceUpdate) :
    find? (staging.stageUpdate key u) table key = (find? staging table key).map u.applyTo := by
  rw [stageUpdate, find?_insert_self, Staged.result_absorb]
  cases h : staging[key]? with
  | none =>
    simp only [find?, h, Option.getD_none, Staged.result]
    cases table[key]? <;> rfl
  | some s => simp [find?, h]

/-! ## Publishing -/

section
variable [Std.LawfulEqCmp order]

/-- Among the entries of a table, a key is found as in the table. -/
theorem find?_toList {α : Type} (entries : Std.ExtTreeMap κ α order) (key : κ) :
    (entries.toList.find? fun entry => order entry.1 key == .eq) = entries[key]?.map (key, ·) := by
  cases hf : entries.toList.find? fun entry => order entry.1 key == .eq with
  | none =>
    cases hs : entries[key]? with
    | none => rfl
    | some s =>
      have hm := List.find?_eq_none.1 hf (key, s)
        (Std.ExtTreeMap.mem_toList_iff_getElem?_eq_some.2 hs)
      simp at hm
  | some entry =>
    obtain ⟨other, s⟩ := entry
    have hp := List.find?_some hf
    simp only [beq_iff_eq] at hp
    have hk := Std.LawfulEqCmp.eq_of_compare hp
    subst hk
    rw [Std.ExtTreeMap.mem_toList_iff_getElem?_eq_some.1 (List.mem_of_find?_eq_some hf)]
    rfl

/-- Writes to distinct keys change a row only if one of them is for its key. -/
theorem getElem?_foldl_alter (key : κ) (writes : List (κ × Staged ρ)) :
    ∀ table : Table κ ρ order, writes.Pairwise (fun a b => ¬ order a.1 b.1 = .eq) →
      (writes.foldl (fun table entry => table.alter entry.1 entry.2.result) table)[key]? =
        match writes.find? fun entry => order entry.1 key == .eq with
        | some entry => entry.2.result table[key]?
        | none => table[key]? := by
  induction writes with
  | nil => intro table _; rfl
  | cons entry rest ih =>
    intro table h
    rw [List.pairwise_cons] at h
    rw [List.foldl_cons, ih _ h.2, List.find?_cons]
    by_cases hk : order entry.1 key = .eq
    · have hrest : (rest.find? fun other => order other.1 key == .eq) = none := by
        rw [List.find?_eq_none]
        intro other hm he
        apply h.1 other hm
        rw [Std.LawfulEqCmp.eq_of_compare hk, ← Std.LawfulEqCmp.eq_of_compare (eq_of_beq he)]
        exact Std.ReflCmp.compare_self
      have hkey := Std.LawfulEqCmp.eq_of_compare hk
      simp [hrest, hkey, Std.ReflCmp.compare_self]
    · have hk' : (order entry.1 key == .eq) = false := by simpa using hk
      rw [hk']
      simp [Std.ExtTreeMap.getElem?_alter, hk]

/-- Publishing makes every row what the transaction saw. -/
theorem getElem?_publish (staging : Staging κ ρ order) (table : Table κ ρ order) (key : κ) :
    (staging.publish table)[key]? = staging.find? table key := by
  rw [publish, getElem?_foldl_alter key _ _ staging.distinct_keys_toList, find?_toList, find?]
  cases staging[key]? <;> rfl

/-- The listed rows are those that can be found. -/
theorem mem_rows {staging : Staging κ ρ order} {table : Table κ ρ order} {row : ρ} :
    row ∈ staging.rows table ↔ ∃ key, staging.find? table key = some row := by
  simp only [rows, List.mem_append, List.mem_map, List.mem_filter, List.mem_filterMap, Prod.exists,
    Std.ExtTreeMap.mem_toList_iff_getElem?_eq_some]
  constructor
  · rintro (⟨key, _, ⟨hrow, hkey⟩, rfl⟩ | ⟨key, s, hs, hrow⟩)
    · refine ⟨key, ?_⟩
      rw [Std.ExtTreeMap.contains_eq_isSome_getElem?] at hkey
      cases hs : staging[key]? with
      | none =>
        rw [find?, hs]
        exact hrow
      | some s =>
        rw [hs] at hkey
        contradiction
    · refine ⟨key, ?_⟩
      rw [find?, hs]
      exact hrow
  · rintro ⟨key, hrow⟩
    cases hs : staging[key]? with
    | none =>
      rw [find?, hs] at hrow
      refine .inl ⟨key, row, ⟨hrow, ?_⟩, rfl⟩
      rw [Std.ExtTreeMap.contains_eq_isSome_getElem?, hs]
      rfl
    | some s =>
      rw [find?, hs] at hrow
      exact .inr ⟨key, s, hs, hrow⟩

end

end Staging
end SalientGraph
