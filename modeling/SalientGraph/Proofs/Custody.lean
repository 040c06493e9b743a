import SalientGraph.Proofs.Holders

/-!
# Who has the permits

A guard together with the permits that its callers hold at the moment. Callers take
permits and drop them, slots are evicted, clearings come and go, and time passes, in any
order. What the guard has on record and what the callers hold never part: a slot is in
use under just the number of the permit that is held for its tenant. So there is no
second permit while the first is held, whatever becomes of the slots meanwhile.
-/

namespace SalientGraph

/-- A guard at a point in time, and the permits that are held. -/
structure Custody where
  guard : Guard
  clock : Nat
  live : List Permit

namespace Custody

/-- What can happen to a guard and to those who hold its permits. -/
inductive Step where
  | acquire (tenant : Tenant)
  | drop (permit : Permit)
  | evictIdle
  | startClearing
  | stopClearing
  /-- Time passes, with the clearings that are due meanwhile. -/
  | wait (millis : Nat)
  /-- The clock is set forward. -/
  | skip (millis : Nat)

def ofConfig (config : GuardConfig) : Custody :=
  ⟨.ofConfig config, 0, []⟩

/-- What a step leads to. A permit that is refused changes nothing, and one that is not held cannot
be dropped. -/
def after (x : Custody) : Step → Custody
  | .acquire tenant =>
    match x.guard.acquire tenant x.clock with
    | .ok (permit, guard) => { x with guard := guard, live := permit :: x.live }
    | .error _ => x
  | .drop permit =>
    if permit ∈ x.live then
      { x with guard := x.guard.release permit x.clock, live := x.live.erase permit }
    else x
  | .evictIdle => { x with guard := (x.guard.evictIdle x.clock).2 }
  | .startClearing => { x with guard := x.guard.startClearing }
  | .stopClearing => { x with guard := x.guard.stopClearing }
  | .wait millis =>
    { x with guard := x.guard.elapse x.clock (x.clock + millis), clock := x.clock + millis }
  | .skip millis =>
    { x with guard := x.guard.skip x.clock (x.clock + millis), clock := x.clock + millis }

def run (x : Custody) (steps : List Step) : Custody :=
  steps.foldl after x

variable {x : Custody}

theorem after_acquire_of_ok {tenant : Tenant} {permit : Permit} {guard : Guard}
    (h : x.guard.acquire tenant x.clock = .ok (permit, guard)) :
    x.after (.acquire tenant) = { x with guard := guard, live := permit :: x.live } := by
  simp only [after, h]

theorem after_acquire_of_error {tenant : Tenant} {f : Fault}
    (h : x.guard.acquire tenant x.clock = .error f) : x.after (.acquire tenant) = x := by
  simp only [after, h]

theorem after_drop_of_mem {permit : Permit} (h : permit ∈ x.live) :
    x.after (.drop permit) =
      { x with guard := x.guard.release permit x.clock, live := x.live.erase permit } :=
  if_pos h

theorem after_drop_of_not_mem {permit : Permit} (h : permit ∉ x.live) :
    x.after (.drop permit) = x :=
  if_neg h

/-- The slots in use are those of the permits that are held, each of them once. -/
structure Exact (x : Custody) : Prop where
  once : x.live.Nodup
  held : ∀ tenant number, x.guard.holder? tenant = some number ↔ ⟨tenant, number⟩ ∈ x.live

end Custody

/-! ## What leaves the permits alone -/

namespace Guard

theorem isHeld_eq_isSome_holder? (g : Guard) (tenant : Tenant) :
    g.isHeld tenant = (g.holder? tenant).isSome := by
  unfold isHeld holder? Slot.isHeld
  cases g.slots[tenant]? <;> rfl

theorem isHeld_eq_false_iff {g : Guard} {tenant : Tenant} :
    g.isHeld tenant = false ↔ g.holder? tenant = none := by
  rw [isHeld_eq_isSome_holder?, Option.isSome_eq_false_iff, Option.isNone_iff_eq_none]

@[simp] theorem holder?_evictIdle (g : Guard) (now : Nat) (tenant : Tenant) :
    (g.evictIdle now).2.holder? tenant = g.holder? tenant :=
  holder?_cleared g now tenant

@[simp] theorem holder?_startClearing (g : Guard) (tenant : Tenant) :
    g.startClearing.holder? tenant = g.holder? tenant := by
  unfold startClearing
  split <;> rfl

@[simp] theorem holder?_stopClearing (g : Guard) (tenant : Tenant) :
    g.stopClearing.holder? tenant = g.holder? tenant := rfl

@[simp] theorem holder?_skip (g : Guard) (since finish : Nat) (tenant : Tenant) :
    (g.skip since finish).holder? tenant = g.holder? tenant :=
  holder?_afterTurns g _ tenant

end Guard

namespace Custody

variable {x : Custody}

/-! ## One step -/

theorem exact_ofConfig (config : GuardConfig) : (ofConfig config).Exact where
  once := List.nodup_nil
  held tenant number := by
    have hnobody : (Guard.ofConfig config).holder? tenant = none := by
      simp [Guard.ofConfig, Guard.holder?]
    show (Guard.ofConfig config).holder? tenant = some number ↔ _ ∈ []
    rw [hnobody]
    simp

theorem Exact.of_holder? (h : x.Exact) {guard : Guard} (clock : Nat)
    (hguard : ∀ tenant, guard.holder? tenant = x.guard.holder? tenant) :
    Exact { x with guard := guard, clock := clock } where
  once := h.once
  held tenant number := by
    show guard.holder? tenant = some number ↔ _
    rw [hguard]
    exact h.held tenant number

/-- A tenant has a slot in use just if a permit for it is held. -/
theorem Exact.isSome_holder?_iff (h : x.Exact) (tenant : Tenant) :
    (x.guard.holder? tenant).isSome = true ↔ ∃ permit ∈ x.live, permit.tenant = tenant := by
  constructor
  · intro hsome
    obtain ⟨number, hnumber⟩ := Option.isSome_iff_exists.1 hsome
    exact ⟨⟨tenant, number⟩, (h.held tenant number).1 hnumber, rfl⟩
  · rintro ⟨⟨_, number⟩, hlive, rfl⟩
    rw [(h.held _ number).2 hlive]
    rfl

theorem Exact.acquire_of_held (h : x.Exact) {tenant : Tenant}
    (hlive : ∃ permit ∈ x.live, permit.tenant = tenant) :
    x.guard.acquire tenant x.clock =
      .error (.conflict ("salience recalculation already running for tenant " ++ tenant.name)) :=
  Guard.acquire_of_held ((h.isSome_holder?_iff tenant).2 hlive) x.clock

theorem Exact.acquire_of_free (h : x.Exact) {tenant : Tenant}
    (hfree : ∀ permit ∈ x.live, permit.tenant ≠ tenant) :
    ∃ guard, x.guard.acquire tenant x.clock = .ok (⟨tenant, x.guard.issued⟩, guard) ∧
      ∀ other, guard.holder? other =
        if other = tenant then some x.guard.issued else x.guard.holder? other := by
  apply Guard.acquire_of_free
  rw [← Option.isNone_iff_eq_none, ← Option.not_isSome, Bool.not_eq_true', ← Bool.not_eq_true]
  intro hsome
  obtain ⟨permit, hpermit, htenant⟩ := (h.isSome_holder?_iff tenant).1 hsome
  exact hfree permit hpermit htenant

theorem Exact.acquire (h : x.Exact) (tenant : Tenant) : (x.after (.acquire tenant)).Exact := by
  by_cases hlive : ∃ permit ∈ x.live, permit.tenant = tenant
  · rw [after_acquire_of_error (h.acquire_of_held hlive)]
    exact h
  · have hfree : ∀ permit ∈ x.live, permit.tenant ≠ tenant :=
      fun permit hpermit htenant => hlive ⟨permit, hpermit, htenant⟩
    obtain ⟨guard, hacquire, hholder⟩ := h.acquire_of_free hfree
    rw [after_acquire_of_ok hacquire]
    refine ⟨List.nodup_cons.2 ⟨fun hmem => hfree _ hmem rfl, h.once⟩, ?_⟩
    intro other number
    show guard.holder? other = some number ↔ ⟨other, number⟩ ∈ _ :: x.live
    rw [hholder, List.mem_cons]
    by_cases hother : other = tenant
    · -- the permit of this tenant is the new one, and there was none before
      subst hother
      rw [if_pos rfl, Option.some.injEq, Permit.mk.injEq]
      constructor
      · exact fun heq => .inl ⟨rfl, heq.symm⟩
      · rintro (⟨-, heq⟩ | hmem)
        · exact heq.symm
        · exact absurd rfl (hfree _ hmem)
    · rw [if_neg hother, h.held]
      constructor
      · exact .inr
      · rintro (heq | hmem)
        · exact absurd (congrArg Permit.tenant heq) hother
        · exact hmem

theorem Exact.drop (h : x.Exact) (permit : Permit) : (x.after (.drop permit)).Exact := by
  by_cases hlive : permit ∈ x.live
  · rw [after_drop_of_mem hlive]
    refine ⟨h.once.erase permit, ?_⟩
    intro other number
    show (x.guard.release permit x.clock).holder? other = some number ↔
      ⟨other, number⟩ ∈ x.live.erase permit
    rw [Guard.holder?_release, h.once.mem_erase_iff]
    have hpermit : x.guard.holder? permit.tenant = some permit.number :=
      (h.held permit.tenant permit.number).2 hlive
    by_cases hother : other = permit.tenant
    · -- the slot is in use under the number of this permit, and under no other
      subst hother
      rw [if_pos ⟨rfl, hpermit⟩]
      refine ⟨fun hnone => by contradiction, ?_⟩
      rintro ⟨hne, hmem⟩
      have hnumber := ((h.held _ number).2 hmem).symm.trans hpermit
      exact absurd (by rw [Option.some.inj hnumber]) hne
    · rw [if_neg fun heq => hother heq.1, h.held]
      constructor
      · intro hmem
        exact ⟨fun heq => hother (congrArg Permit.tenant heq), hmem⟩
      · exact fun hmem => hmem.2
  · rw [after_drop_of_not_mem hlive]
    exact h

/-- Whatever happens, permits and slots go together. -/
theorem Exact.after (h : x.Exact) (step : Step) : (x.after step).Exact := by
  cases step with
  | acquire tenant => exact h.acquire tenant
  | drop permit => exact h.drop permit
  | evictIdle => exact h.of_holder? x.clock fun tenant => Guard.holder?_evictIdle _ _ tenant
  | startClearing => exact h.of_holder? x.clock fun tenant => Guard.holder?_startClearing _ tenant
  | stopClearing => exact h.of_holder? x.clock fun tenant => Guard.holder?_stopClearing _ tenant
  | wait millis => exact h.of_holder? _ fun tenant => Guard.holder?_elapse _ _ _ tenant
  | skip millis => exact h.of_holder? _ fun tenant => Guard.holder?_skip _ _ _ tenant

/-! ## A whole run -/

theorem Exact.run (steps : List Step) : ∀ {x : Custody}, x.Exact → (x.run steps).Exact := by
  induction steps with
  | nil => exact fun h => h
  | cons step steps ih => exact fun h => ih (h.after step)

/-- Of the permits that are held, one at most is for a given tenant. -/
theorem Exact.length_filter_le_one (h : x.Exact) (tenant : Tenant) :
    (x.live.filter fun permit => permit.tenant = tenant).length ≤ 1 := by
  have hnodup : (x.live.filter fun permit => permit.tenant = tenant).Nodup := h.once.filter _
  have hsame : ∀ p ∈ x.live.filter fun permit => permit.tenant = tenant,
      ∀ q ∈ x.live.filter fun permit => permit.tenant = tenant, p = q := by
    intro p hp q hq
    obtain ⟨hplive, hptenant⟩ := List.mem_filter.1 hp
    obtain ⟨hqlive, hqtenant⟩ := List.mem_filter.1 hq
    obtain ⟨_, m⟩ := p
    obtain ⟨_, n⟩ := q
    obtain rfl := of_decide_eq_true hptenant
    obtain rfl := of_decide_eq_true hqtenant
    -- both are the permit under whose number the slot is in use
    have hnumber := ((h.held _ m).2 hplive).symm.trans ((h.held _ n).2 hqlive)
    rw [Option.some.inj hnumber]
  cases hlist : x.live.filter fun permit => permit.tenant = tenant with
  | nil => exact Nat.zero_le 1
  | cons p rest =>
      cases rest with
      | nil => exact Nat.le_refl 1
      | cons q rest =>
          rw [hlist] at hnodup hsame
          have hpq : p = q := hsame p (by simp) q (by simp)
          simp [hpq] at hnodup

/-- In every run of a guard, whatever its capacity and its periods, each tenant has one permit in
use at most. A permit is given just if none is held for the tenant; otherwise it is refused, and
then nothing changes. And the guard tells that a tenant is being swept just as long as a permit for
it is held. -/
theorem permits_exclude_each_other (config : GuardConfig) (steps : List Step) (tenant : Tenant) :
    let x := (ofConfig config).run steps
    (x.live.filter fun permit => permit.tenant = tenant).length ≤ 1 ∧
      ((∃ permit guard, x.guard.acquire tenant x.clock = .ok (permit, guard) ∧
          permit.tenant = tenant) ↔ ∀ permit ∈ x.live, permit.tenant ≠ tenant) ∧
      (∀ f, x.guard.acquire tenant x.clock = .error f →
        f = .conflict ("salience recalculation already running for tenant " ++ tenant.name) ∧
          x.after (.acquire tenant) = x) ∧
      (x.guard.isHeld tenant = true ↔ ∃ permit ∈ x.live, permit.tenant = tenant) := by
  intro x
  have hx : x.Exact := (exact_ofConfig config).run steps
  refine ⟨hx.length_filter_le_one tenant, ⟨?_, ?_⟩, ?_, ?_⟩
  · rintro ⟨permit, guard, hacquire, -⟩ other hother htenant
    rw [hx.acquire_of_held ⟨other, hother, htenant⟩] at hacquire
    contradiction
  · intro hfree
    obtain ⟨guard, hacquire, -⟩ := hx.acquire_of_free hfree
    exact ⟨_, guard, hacquire, rfl⟩
  · intro f hrefused
    by_cases hlive : ∃ permit ∈ x.live, permit.tenant = tenant
    · rw [hx.acquire_of_held hlive] at hrefused
      refine ⟨(Except.error.inj hrefused).symm, ?_⟩
      exact after_acquire_of_error (hx.acquire_of_held hlive)
    · obtain ⟨guard, hacquire, -⟩ := hx.acquire_of_free
        fun permit hpermit htenant => hlive ⟨permit, hpermit, htenant⟩
      rw [hacquire] at hrefused
      contradiction
  · rw [Guard.isHeld_eq_isSome_holder?]
    exact hx.isSome_holder?_iff tenant

/-- A sweep holds its permit for a minute in a guard with room for one tenant. Neither a clearing
nor another tenant takes its slot, so a second sweep over the tenant is refused. -/
theorem permits_exclude_each_other_past_capacity :
    let config : GuardConfig :=
      { capacity := 1, idleSeconds := 1, clearingSeconds := 1 }
    let steps : List Step :=
      [.startClearing, .acquire ⟨"acme"⟩, .wait 60000, .evictIdle, .acquire ⟨"globex"⟩]
    let x := (ofConfig config).run steps
    let refusal : Fault :=
      .conflict ("salience recalculation already running for tenant " ++ "acme")
    x.live.length = 2 ∧ x.guard.acquire ⟨"acme"⟩ x.clock = .error refusal ∧
      x.after (.acquire ⟨"acme"⟩) = x := by
  intro config steps x refusal
  have hlive : ∃ permit ∈ x.live, permit.tenant = ⟨"acme"⟩ := by decide +kernel
  have hrefused : x.guard.acquire ⟨"acme"⟩ x.clock = .error refusal :=
    ((exact_ofConfig config).run steps).acquire_of_held hlive
  exact ⟨by decide +kernel, hrefused,
    ((permits_exclude_each_other config steps ⟨"acme"⟩).2.2.1 refusal hrefused).2⟩

end Custody
end SalientGraph
