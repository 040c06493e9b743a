import SalientGraph.Guard

/-!
# Who holds what in the guard

Of a slot only the permit in use matters to those who ask for one: a free slot and none
at all are the same to them. Clearings and making room take free slots only, so they
change nobody's permit, and to take or return a permit changes that of one tenant.
-/

namespace SalientGraph
namespace Guard

/-- The number of the permit for a tenant that is in use, if there is one. -/
def holder? (g : Guard) (tenant : Tenant) : Option Nat :=
  g.slots[tenant]?.bind Slot.holder

theorem holder?_eq_none_of_isHeld_eq_false {slot : Slot} (h : slot.isHeld = false) :
    slot.holder = none := by
  unfold Slot.isHeld at h
  exact Option.isSome_eq_false_iff.1 h |> Option.isNone_iff_eq_none.1

/-- A clearing takes free slots only. -/
@[simp] theorem holder?_cleared (g : Guard) (now : Nat) (tenant : Tenant) :
    (g.cleared now).holder? tenant = g.holder? tenant := by
  rw [holder?, holder?, cleared, Std.ExtTreeMap.getElem?_filter']
  cases hslot : g.slots[tenant]? with
  | none => rfl
  | some slot =>
      by_cases hexpired : slot.isExpired g.config.idleMillis now = true
      · -- only free slots expire
        have hfree : slot.isHeld = false := by
          simp only [Slot.isExpired, Bool.and_eq_true, Bool.not_eq_true'] at hexpired
          exact hexpired.1
        rw [Option.filter_some_neg (by simp [hexpired])]
        exact (holder?_eq_none_of_isHeld_eq_false hfree).symm
      · rw [Option.filter_some_pos (by simp [hexpired])]

/-- The slot that makes room is a free one. -/
theorem isHeld_eq_false_of_longestFree? {g : Guard} {tenant : Tenant}
    (h : g.longestFree? = some tenant) : ∃ slot, g.slots[tenant]? = some slot ∧
      slot.isHeld = false := by
  obtain ⟨entry, hentry, rfl⟩ := Option.map_eq_some_iff.1 h
  have hmem := List.mem_filter.1 (List.minOn?_mem hentry)
  refine ⟨entry.2, Std.ExtTreeMap.mem_toList_iff_getElem?_eq_some.1 hmem.1, ?_⟩
  simpa using hmem.2

/-- To make room takes free slots only. -/
@[simp] theorem holder?_withRoom (g : Guard) (now : Nat) (tenant : Tenant) :
    (g.withRoom now).holder? tenant = g.holder? tenant := by
  unfold withRoom
  split
  · rfl
  · dsimp only
    split
    · exact holder?_cleared g now tenant
    · split
      · -- one more slot goes, and it is the free one that has been so for longest
        rename_i freed hfreed
        rw [← holder?_cleared g now tenant]
        obtain ⟨slot, hslot, hfree⟩ := isHeld_eq_false_of_longestFree? hfreed
        unfold holder?
        rw [Std.ExtTreeMap.getElem?_erase]
        split
        · rename_i htenant
          rw [← Std.LawfulEqCmp.eq_of_compare htenant, hslot]
          exact (holder?_eq_none_of_isHeld_eq_false hfree).symm
        · rfl
      · exact holder?_cleared g now tenant

@[simp] theorem holder?_afterTurns (g : Guard) (turns : List (Option Nat × Nat))
    (tenant : Tenant) : (g.afterTurns turns).holder? tenant = g.holder? tenant := by
  unfold afterTurns
  dsimp only
  split
  · exact holder?_cleared g _ tenant
  · rfl

/-- In the course of time nobody's permit changes. -/
@[simp] theorem holder?_elapse (g : Guard) (since finish : Nat) (tenant : Tenant) :
    (g.elapse since finish).holder? tenant = g.holder? tenant := by
  unfold elapse
  split
  · rfl
  · exact holder?_afterTurns g _ tenant

@[simp] theorem issued_withRoom (g : Guard) (now : Nat) : (g.withRoom now).issued = g.issued := by
  unfold withRoom
  split
  · rfl
  · dsimp only
    split
    · rfl
    · split <;> rfl

theorem holder?_grant (g : Guard) (tenant : Tenant) (now : Nat) (other : Tenant) :
    (g.grant tenant now).2.holder? other =
      if other = tenant then some g.issued else g.holder? other := by
  unfold grant holder?
  dsimp only
  rw [Std.ExtTreeMap.getElem?_insert]
  by_cases h : other = tenant
  · rw [h, if_pos Std.ReflCmp.compare_self, if_pos rfl]
    rfl
  · have hne : Tenant.order tenant other ≠ .eq := fun heq =>
      h (Std.LawfulEqCmp.eq_of_compare heq).symm
    rw [if_neg hne, if_neg h]

theorem acquire_of_held {g : Guard} {tenant : Tenant} (h : (g.holder? tenant).isSome = true)
    (now : Nat) : g.acquire tenant now =
      .error (.conflict ("salience recalculation already running for tenant " ++ tenant.name)) := by
  unfold holder? at h
  unfold acquire
  cases hslot : g.slots[tenant]? with
  | none =>
      rw [hslot] at h
      contradiction
  | some slot =>
      rw [hslot] at h
      exact if_pos h

/-- A permit that nobody holds can be taken, and the permits of others stay as they are. -/
theorem acquire_of_free {g : Guard} {tenant : Tenant} (h : g.holder? tenant = none) (now : Nat) :
    ∃ g', g.acquire tenant now = .ok (⟨tenant, g.issued⟩, g') ∧
      ∀ other, g'.holder? other = if other = tenant then some g.issued else g.holder? other := by
  unfold acquire
  cases hslot : g.slots[tenant]? with
  | none =>
      refine ⟨((g.withRoom now).grant tenant now).2, ?_, ?_⟩
      · dsimp only
        rw [← issued_withRoom g now]
        rfl
      · intro other
        rw [holder?_grant, holder?_withRoom, issued_withRoom]
  | some slot =>
      have hfree : slot.isHeld = false := by
        rw [holder?, hslot] at h
        exact Option.isSome_eq_false_iff.2 (Option.isNone_iff_eq_none.2 h)
      refine ⟨(g.grant tenant now).2, ?_, fun other => holder?_grant g tenant now other⟩
      dsimp only
      rw [hfree]
      rfl

theorem holder?_release (g : Guard) (permit : Permit) (now : Nat) (other : Tenant) :
    (g.release permit now).holder? other =
      if other = permit.tenant ∧ g.holder? other = some permit.number then none
      else g.holder? other := by
  unfold release
  cases hslot : g.slots[permit.tenant]? with
  | none =>
      dsimp only
      rw [if_neg]
      rintro ⟨rfl, h⟩
      rw [holder?, hslot] at h
      contradiction
  | some slot =>
      dsimp only
      by_cases hother : other = permit.tenant
      · subst hother
        have hholder : g.holder? permit.tenant = slot.holder := by
          rw [holder?, hslot]
          rfl
        rw [hholder]
        -- a permit that is not in use any more returns nothing
        by_cases hnumber : slot.holder = some permit.number
        · rw [if_pos hnumber, if_pos ⟨rfl, hnumber⟩, holder?]
          simp
        · have hkept : ¬ (permit.tenant = permit.tenant ∧ slot.holder = some permit.number) :=
            fun h => hnumber h.2
          rw [if_neg hnumber, if_neg hkept, hholder]
      · have hkept : ¬ (other = permit.tenant ∧ g.holder? other = some permit.number) :=
          fun h => hother h.1
        rw [if_neg hkept]
        split
        · have hne : Tenant.order permit.tenant other ≠ .eq := fun heq =>
            hother (Std.LawfulEqCmp.eq_of_compare heq).symm
          rw [holder?, Std.ExtTreeMap.getElem?_insert, if_neg hne]
          rfl
        · rfl

end Guard
end SalientGraph
