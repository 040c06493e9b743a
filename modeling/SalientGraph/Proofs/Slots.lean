import Mathlib.Data.List.Perm.Subperm
import SalientGraph.Proofs.Holders

/-!
# The slots of a guard

A guard adds one slot at a time, when it gives a permit to a tenant that had none. It may
have to make room first, and all else that it does to slots is to write the one of the
tenant at hand, or to take free ones away.
-/

namespace SalientGraph
namespace Guard

/-! ## What goes from a guard -/

/-- Nothing is added and nothing is altered, but slots may be gone. -/
def Thins (g g' : Guard) : Prop :=
  ∀ (tenant : Tenant) (slot : Slot),
    g'.slots[tenant]? = some slot → g.slots[tenant]? = some slot

theorem Thins.refl (g : Guard) : g.Thins g :=
  fun _ _ h => h

theorem thins_cleared (g : Guard) (now : Nat) : g.Thins (g.cleared now) := by
  intro tenant slot h
  rw [cleared, Std.ExtTreeMap.getElem?_filter'] at h
  exact (Option.filter_eq_some_iff.1 h).1

theorem thins_afterTurns (g : Guard) (turns : List (Option Nat × Nat)) :
    g.Thins (g.afterTurns turns) := by
  unfold afterTurns
  dsimp only
  split
  · exact g.thins_cleared _
  · exact Thins.refl g

theorem thins_elapse (g : Guard) (since finish : Nat) : g.Thins (g.elapse since finish) := by
  unfold elapse
  split
  · exact Thins.refl g
  · exact g.thins_afterTurns _

theorem thins_skip (g : Guard) (since finish : Nat) : g.Thins (g.skip since finish) :=
  g.thins_afterTurns _

theorem thins_startClearing (g : Guard) : g.Thins g.startClearing := by
  unfold startClearing
  split
  · exact Thins.refl g
  · exact Thins.refl g

/-- The tenant whose slot goes although it has not expired, for lack of room. -/
def victim? (g : Guard) (now : Nat) : Option Tenant :=
  if (g.cleared now).size < g.config.capacity then none else (g.cleared now).longestFree?

theorem withRoom_of_lt {g : Guard} (h : g.size < g.config.capacity) (now : Nat) :
    g.withRoom now = g :=
  if_pos h

/-- Where there is no room, all expired slots go, and the victim's. -/
theorem getElem?_withRoom_of_le {g : Guard} (h : g.config.capacity ≤ g.size) (now : Nat)
    (tenant : Tenant) : (g.withRoom now).slots[tenant]? =
      if g.victim? now = some tenant then none else (g.cleared now).slots[tenant]? := by
  unfold withRoom victim?
  rw [if_neg (Nat.not_lt.2 h)]
  dsimp only
  have hcapacity : (g.cleared now).config.capacity = g.config.capacity := rfl
  rw [hcapacity]
  by_cases hroom : (g.cleared now).size < g.config.capacity
  · rw [if_pos hroom, if_pos hroom, if_neg (by simp)]
  · rw [if_neg hroom, if_neg hroom]
    cases hfree : (g.cleared now).longestFree? with
    | none => rw [if_neg (by simp)]
    | some victim =>
        dsimp only
        rw [Std.ExtTreeMap.getElem?_erase]
        by_cases hvictim : victim = tenant
        · rw [hvictim, if_pos Std.ReflCmp.compare_self, if_pos rfl]
        · rw [if_neg fun heq => hvictim (Std.LawfulEqCmp.eq_of_compare heq),
            if_neg fun heq => hvictim (Option.some.inj heq)]

theorem thins_withRoom (g : Guard) (now : Nat) : g.Thins (g.withRoom now) := by
  intro tenant slot h
  rcases Nat.lt_or_ge g.size g.config.capacity with hroom | hfull
  · rw [withRoom_of_lt hroom] at h
    exact h
  · rw [getElem?_withRoom_of_le hfull] at h
    split at h
    · contradiction
    · exact g.thins_cleared now tenant slot h

/-- A slot that goes for lack of room is free, and no free one was used before it. -/
theorem lastUsed_le_of_longestFree? {g : Guard} {victim : Tenant}
    (h : g.longestFree? = some victim) :
    ∃ slot, g.slots[victim]? = some slot ∧ slot.isHeld = false ∧
      ∀ (tenant : Tenant) (other : Slot), g.slots[tenant]? = some other → other.isHeld = false →
        slot.lastUsed ≤ other.lastUsed := by
  obtain ⟨entry, hentry, rfl⟩ := Option.map_eq_some_iff.1 h
  obtain ⟨hmem, hfree⟩ := List.mem_filter.1 (List.minOn?_mem hentry)
  refine ⟨entry.2, Std.ExtTreeMap.mem_toList_iff_getElem?_eq_some.1 hmem, by simpa using hfree, ?_⟩
  intro tenant other hother hfree'
  have hmem' : (tenant, other) ∈ g.slots.toList.filter fun entry => !entry.2.isHeld := by
    rw [List.mem_filter]
    exact ⟨Std.ExtTreeMap.mem_toList_iff_getElem?_eq_some.2 hother, by simp [hfree']⟩
  have hleast := List.apply_get_minOn?_le_of_mem (f := fun entry => entry.2.lastUsed) hmem'
  simp only [hentry, Option.get_some] at hleast
  exact hleast

/-- As long as some slot is free, there is one that can go. -/
theorem longestFree?_eq_none_iff {g : Guard} : g.longestFree? = none ↔
    ∀ (tenant : Tenant) (slot : Slot), g.slots[tenant]? = some slot → slot.isHeld = true := by
  unfold longestFree?
  rw [Option.map_eq_none_iff, ← Option.not_isSome_iff_eq_none, List.isSome_minOn?_iff,
    ne_eq, Classical.not_not, List.filter_eq_nil_iff]
  constructor
  · intro h tenant slot hslot
    simpa using h (tenant, slot) (Std.ExtTreeMap.mem_toList_iff_getElem?_eq_some.2 hslot)
  · intro h entry hentry
    simpa using h entry.1 entry.2 (Std.ExtTreeMap.mem_toList_iff_getElem?_eq_some.1 hentry)

/-- Where slots are only gone, there are not more of them. -/
theorem Thins.size_le {g g' : Guard} (h : g.Thins g') : g'.size ≤ g.size := by
  unfold size
  rw [← Std.ExtTreeMap.length_keys, ← Std.ExtTreeMap.length_keys]
  apply (Std.ExtTreeMap.nodup_keys.subperm _).length_le
  intro tenant hmem
  rw [Std.ExtTreeMap.mem_keys, Std.ExtTreeMap.mem_iff_isSome_getElem?] at hmem ⊢
  obtain ⟨slot, hslot⟩ := Option.isSome_iff_exists.1 hmem
  rw [h tenant slot hslot]
  rfl

/-! ## What is added to a guard -/

theorem getElem?_insert (g : Guard) (tenant other : Tenant) (slot : Slot) :
    (g.slots.insert tenant slot)[other]? =
      if other = tenant then some slot else g.slots[other]? := by
  rw [Std.ExtTreeMap.getElem?_insert]
  by_cases h : other = tenant
  · rw [h, if_pos Std.ReflCmp.compare_self, if_pos rfl]
  · rw [if_neg fun heq => h (Std.LawfulEqCmp.eq_of_compare heq).symm, if_neg h]

theorem size_insert_of_mem {g : Guard} {tenant : Tenant} (h : tenant ∈ g.slots) (slot : Slot) :
    (g.slots.insert tenant slot).size = g.slots.size := by
  rw [Std.ExtTreeMap.size_insert, if_pos (Std.ExtTreeMap.contains_iff_mem.2 h)]

/-- A permit is given on a free slot, or on a new one for which room is made if need be. -/
theorem acquire_eq_ok {g g' : Guard} {tenant : Tenant} {now : Nat} {permit : Permit}
    (h : g.acquire tenant now = .ok (permit, g')) : permit.tenant = tenant ∧
      ((tenant ∈ g.slots ∧ g' = (g.grant tenant now).2) ∨
        (tenant ∉ g.slots ∧ g' = ((g.withRoom now).grant tenant now).2)) := by
  rw [Std.ExtTreeMap.mem_iff_isSome_getElem?]
  unfold acquire at h
  split at h
  · rename_i slot hslot
    split at h
    · contradiction
    · obtain ⟨rfl, rfl⟩ := Prod.mk.inj (Except.ok.inj h)
      exact ⟨rfl, .inl ⟨by rw [hslot]; rfl, rfl⟩⟩
  · rename_i hnone
    obtain ⟨rfl, rfl⟩ := Prod.mk.inj (Except.ok.inj h)
    exact ⟨rfl, .inr ⟨by rw [hnone]; simp, rfl⟩⟩

theorem slots_grant (g : Guard) (tenant : Tenant) (now : Nat) :
    (g.grant tenant now).2.slots = g.slots.insert tenant ⟨some g.issued, now⟩ := rfl

/-- A permit that is in use goes back to its slot. -/
theorem release_of_holder? {g : Guard} {permit : Permit}
    (h : g.holder? permit.tenant = some permit.number) (now : Nat) :
    g.release permit now = { g with slots := g.slots.insert permit.tenant ⟨none, now⟩ } := by
  unfold holder? at h
  unfold release
  cases hslot : g.slots[permit.tenant]? with
  | none =>
      rw [hslot] at h
      contradiction
  | some slot =>
      rw [hslot] at h
      exact if_pos h

theorem mem_slots_of_holder? {g : Guard} {tenant : Tenant} {number : Nat}
    (h : g.holder? tenant = some number) : tenant ∈ g.slots := by
  rw [Std.ExtTreeMap.mem_iff_isSome_getElem?]
  cases hslot : g.slots[tenant]? with
  | none =>
      rw [holder?, hslot] at h
      contradiction
  | some slot => rfl

/-- There is room in the end, or there are fewer slots than before, or all slots are in use. -/
theorem size_withRoom (g : Guard) (now : Nat) :
    (g.withRoom now).size < g.config.capacity ∨ (g.withRoom now).size < g.size ∨
      ∀ (tenant : Tenant) (slot : Slot), (g.withRoom now).slots[tenant]? = some slot →
        slot.isHeld = true := by
  unfold withRoom
  split
  · rename_i hroom
    exact .inl hroom
  · dsimp only
    split
    · rename_i hroom
      exact .inl hroom
    · split
      · rename_i victim hvictim
        obtain ⟨slot, hslot, -, -⟩ := lastUsed_le_of_longestFree? hvictim
        refine .inr (.inl ?_)
        have hmem : victim ∈ (g.cleared now).slots := by
          rw [Std.ExtTreeMap.mem_iff_isSome_getElem?, hslot]
          rfl
        have hpos : 0 < (g.cleared now).slots.size := by
          rw [← Std.ExtTreeMap.length_keys]
          exact List.length_pos_of_mem (Std.ExtTreeMap.mem_keys.2 hmem)
        have hfewer : (g.cleared now).slots.size ≤ g.slots.size := (g.thins_cleared now).size_le
        show ((g.cleared now).slots.erase victim).size < g.slots.size
        rw [Std.ExtTreeMap.size_erase, if_pos (Std.ExtTreeMap.contains_iff_mem.2 hmem)]
        omega
      · rename_i hnobody
        exact .inr (.inr (longestFree?_eq_none_iff.1 hnobody))

@[simp] theorem config_withRoom (g : Guard) (now : Nat) : (g.withRoom now).config = g.config := by
  unfold withRoom
  split
  · rfl
  · dsimp only
    split
    · rfl
    · split <;> rfl

theorem config_acquire {g g' : Guard} {tenant : Tenant} {now : Nat} {permit : Permit}
    (h : g.acquire tenant now = .ok (permit, g')) : g'.config = g.config := by
  rcases (acquire_eq_ok h).2 with ⟨-, rfl⟩ | ⟨-, rfl⟩
  · rfl
  · exact config_withRoom g now

@[simp] theorem config_release (g : Guard) (permit : Permit) (now : Nat) :
    (g.release permit now).config = g.config := by
  unfold release
  split
  · split <;> rfl
  · rfl

@[simp] theorem config_startClearing (g : Guard) : g.startClearing.config = g.config := by
  unfold startClearing
  split <;> rfl

@[simp] theorem config_afterTurns (g : Guard) (turns : List (Option Nat × Nat)) :
    (g.afterTurns turns).config = g.config := by
  unfold afterTurns
  dsimp only
  split <;> rfl

@[simp] theorem config_elapse (g : Guard) (since finish : Nat) :
    (g.elapse since finish).config = g.config := by
  unfold elapse
  split
  · rfl
  · exact config_afterTurns g _

end Guard
end SalientGraph
