import Mathlib.Data.List.Induction
import SalientGraph.Proofs.Custody
import SalientGraph.Proofs.Slots

/-!
# Which slots go

A guard looks at its slots only: whether one is in use, and the time written on it. What
it does with them can be told from the history of its permits alone. The time on a slot
is the time at which a permit for its tenant was last given or returned. Slots that are
free and were not used for long go first, and when that makes no room, the one that was
used least recently. Slots in use stay, so that there are more slots than the capacity
only if so many permits were once held at the same time.
-/

namespace SalientGraph
namespace Custody

/-! ## The history of a run -/

/-- Whether no permit for the tenant is held. -/
def isFree (x : Custody) (tenant : Tenant) : Bool :=
  x.live.all fun permit => permit.tenant ≠ tenant

/-- The tenants that have a slot. -/
def tenants (x : Custody) : List Tenant :=
  x.guard.slots.keys

/-- The tenant whose permit is given or returned with a step, if one is. -/
def used? (x : Custody) : Step → Option Tenant
  | .acquire tenant =>
    match x.guard.acquire tenant x.clock with
    | .ok (permit, _) => some permit.tenant
    | .error _ => none
  | .drop permit => if permit ∈ x.live then some permit.tenant else none
  | _ => none

/-- When a permit for a tenant was last given or returned in the course of some steps. -/
def lastUse? (tenant : Tenant) : Custody → List Step → Option Nat
  | _, [] => none
  | x, step :: steps =>
    (lastUse? tenant (x.after step) steps).or
      (if x.used? step = some tenant then some x.clock else none)

/-- The largest number of permits that are held at the same time in the course of some steps. -/
def peak : Custody → List Step → Nat
  | x, [] => x.live.length
  | x, step :: steps => max x.live.length (peak (x.after step) steps)

theorem run_concat (x : Custody) (steps : List Step) (step : Step) :
    x.run (steps ++ [step]) = (x.run steps).after step := by
  rw [run, List.foldl_append]
  rfl

theorem lastUse?_concat (tenant : Tenant) (step : Step) (steps : List Step) : ∀ x : Custody,
    lastUse? tenant x (steps ++ [step]) =
      if (x.run steps).used? step = some tenant then some (x.run steps).clock
      else lastUse? tenant x steps := by
  induction steps with
  | nil => intro x; rfl
  | cons first steps ih =>
      intro x
      rw [List.cons_append, lastUse?, ih]
      by_cases hused : ((x.after first).run steps).used? step = some tenant
      · rw [if_pos hused]
        exact (if_pos hused).symm
      · rw [if_neg hused]
        exact (if_neg hused).symm

theorem peak_concat (step : Step) (steps : List Step) : ∀ x : Custody,
    peak x (steps ++ [step]) = max (peak x steps) ((x.run steps).after step).live.length := by
  induction steps with
  | nil => intro x; rfl
  | cons first steps ih =>
      intro x
      rw [List.cons_append, peak, ih, peak, Nat.max_assoc]
      rfl

/-! ## One step -/

variable {x : Custody}

theorem config_after (x : Custody) (step : Step) :
    (x.after step).guard.config = x.guard.config := by
  cases step with
  | acquire tenant =>
      cases hacquire : x.guard.acquire tenant x.clock with
      | ok given => rw [after_acquire_of_ok hacquire, Guard.config_acquire hacquire]
      | error f => rw [after_acquire_of_error hacquire]
  | drop permit =>
      by_cases hlive : permit ∈ x.live
      · rw [after_drop_of_mem hlive, Guard.config_release]
      · rw [after_drop_of_not_mem hlive]
  | evictIdle => rfl
  | startClearing => exact Guard.config_startClearing _
  | stopClearing => rfl
  | wait millis => exact Guard.config_elapse _ _ _
  | skip millis => exact Guard.config_afterTurns _ _

theorem clock_le_after (x : Custody) (step : Step) : x.clock ≤ (x.after step).clock := by
  cases step with
  | acquire tenant =>
      cases hacquire : x.guard.acquire tenant x.clock with
      | ok given => exact Nat.le_of_eq (congrArg clock (after_acquire_of_ok hacquire)).symm
      | error f => exact Nat.le_of_eq (congrArg clock (after_acquire_of_error hacquire)).symm
  | drop permit =>
      by_cases hlive : permit ∈ x.live
      · exact Nat.le_of_eq (congrArg clock (after_drop_of_mem hlive)).symm
      · exact Nat.le_of_eq (congrArg clock (after_drop_of_not_mem hlive)).symm
  | evictIdle => exact Nat.le_refl _
  | startClearing => exact Nat.le_refl _
  | stopClearing => exact Nat.le_refl _
  | wait millis => exact Nat.le_add_right _ _
  | skip millis => exact Nat.le_add_right _ _

/-- A step that gives or returns a permit writes one slot, for which room may have been made. All
other steps take slots away at most. -/
theorem Exact.after_cases (h : x.Exact) (step : Step) :
    (x.used? step = none ∧ x.guard.Thins (x.after step).guard) ∨
      ∃ tenant slot rest, x.used? step = some tenant ∧ slot.lastUsed = x.clock ∧
        (x.after step).guard.slots = rest.slots.insert tenant slot ∧
        ((tenant ∈ x.guard.slots ∧ rest = x.guard) ∨
          (rest = x.guard.withRoom x.clock ∧
            (x.after step).live.length = x.live.length + 1)) := by
  cases step with
  | acquire tenant =>
      cases hacquire : x.guard.acquire tenant x.clock with
      | error f =>
          rw [after_acquire_of_error hacquire, used?, hacquire]
          exact .inl ⟨rfl, .refl _⟩
      | ok given =>
          obtain ⟨permit, guard⟩ := given
          rw [after_acquire_of_ok hacquire, used?, hacquire]
          obtain ⟨htenant, ⟨hmem, rfl⟩ | ⟨-, rfl⟩⟩ := Guard.acquire_eq_ok hacquire
          · exact .inr ⟨tenant, _, x.guard, by rw [← htenant], rfl, rfl, .inl ⟨hmem, rfl⟩⟩
          · exact .inr ⟨tenant, _, _, by rw [← htenant], rfl, rfl, .inr ⟨rfl, rfl⟩⟩
  | drop permit =>
      by_cases hlive : permit ∈ x.live
      · have hholder := (h.held permit.tenant permit.number).2 hlive
        rw [after_drop_of_mem hlive, used?, if_pos hlive, Guard.release_of_holder? hholder]
        exact .inr ⟨permit.tenant, _, x.guard, rfl, rfl, rfl,
          .inl ⟨Guard.mem_slots_of_holder? hholder, rfl⟩⟩
      · rw [after_drop_of_not_mem hlive, used?, if_neg hlive]
        exact .inl ⟨rfl, .refl _⟩
  | evictIdle => exact .inl ⟨rfl, x.guard.thins_cleared _⟩
  | startClearing => exact .inl ⟨rfl, x.guard.thins_startClearing⟩
  | stopClearing => exact .inl ⟨rfl, .refl _⟩
  | wait millis => exact .inl ⟨rfl, x.guard.thins_elapse _ _⟩
  | skip millis => exact .inl ⟨rfl, x.guard.thins_skip _ _⟩

/-- A slot bears the time of the step if its tenant's permit was given or returned, and otherwise it
is as it was. -/
theorem Exact.slot_after (h : x.Exact) {step : Step} {tenant : Tenant} {slot : Slot}
    (hslot : (x.after step).guard.slots[tenant]? = some slot) :
    (x.used? step = some tenant ∧ slot.lastUsed = x.clock) ∨
      (x.used? step ≠ some tenant ∧ x.guard.slots[tenant]? = some slot) := by
  rcases h.after_cases step with ⟨hunused, hthins⟩ |
    ⟨user, written, rest, hused, htime, hslots, hrest⟩
  · exact .inr ⟨by rw [hunused]; simp, hthins tenant slot hslot⟩
  · rw [hslots, Guard.getElem?_insert] at hslot
    rw [hused]
    by_cases huser : tenant = user
    · rw [if_pos huser] at hslot
      rw [← Option.some.inj hslot]
      exact .inl ⟨by rw [huser], htime⟩
    · rw [if_neg huser] at hslot
      refine .inr ⟨fun heq => huser (Option.some.inj heq).symm, ?_⟩
      rcases hrest with ⟨-, rfl⟩ | ⟨rfl, -⟩
      · exact hslot
      · exact x.guard.thins_withRoom x.clock tenant slot hslot

/-- If all slots are in use, there are not more of them than permits that are held. -/
theorem Exact.size_le_of_isHeld (h : x.Exact) {rest : Guard} (hthins : x.guard.Thins rest)
    (hheld : ∀ (tenant : Tenant) (slot : Slot), rest.slots[tenant]? = some slot →
      slot.isHeld = true) : rest.size ≤ x.live.length := by
  rw [Guard.size, ← Std.ExtTreeMap.length_keys, ← List.length_map (f := Permit.tenant)]
  apply (Std.ExtTreeMap.nodup_keys.subperm _).length_le
  intro tenant hmem
  rw [Std.ExtTreeMap.mem_keys, Std.ExtTreeMap.mem_iff_isSome_getElem?] at hmem
  obtain ⟨slot, hslot⟩ := Option.isSome_iff_exists.1 hmem
  have hholder : (x.guard.holder? tenant).isSome = true := by
    rw [Guard.holder?, hthins tenant slot hslot]
    exact hheld tenant slot hslot
  obtain ⟨permit, hpermit, htenant⟩ := (h.isSome_holder?_iff tenant).1 hholder
  exact List.mem_map.2 ⟨permit, hpermit, htenant⟩

/-- A step adds a slot only if there is room for it or all slots are in use. -/
theorem Exact.size_after (h : x.Exact) (step : Step) : (x.after step).guard.size ≤
    max x.guard.config.capacity (max x.guard.size (x.after step).live.length) := by
  rcases h.after_cases step with ⟨-, hthins⟩ | ⟨tenant, slot, rest, -, -, hslots, hrest⟩
  · have hsize := hthins.size_le
    omega
  · have hsize : (x.after step).guard.size = (rest.slots.insert tenant slot).size :=
      congrArg Std.ExtTreeMap.size hslots
    rcases hrest with ⟨hmem, rfl⟩ | ⟨rfl, hlive⟩
    · rw [Guard.size_insert_of_mem hmem] at hsize
      rw [hsize]
      exact Nat.le_trans (Nat.le_max_left _ _) (Nat.le_max_right _ _)
    · have hadded : ((x.guard.withRoom x.clock).slots.insert tenant slot).size ≤
          (x.guard.withRoom x.clock).size + 1 := Std.ExtTreeMap.size_insert_le
      rcases x.guard.size_withRoom x.clock with hroom | hfewer | hheld
      · omega
      · omega
      · have hfew := h.size_le_of_isHeld (x.guard.thins_withRoom x.clock) hheld
        omega

/-! ## A whole run -/

/-- What the guard has on record after a run is the history of the run. -/
structure Recorded (config : GuardConfig) (steps : List Step) (x : Custody) : Prop where
  exact : x.Exact
  configured : x.guard.config = config
  stamped : ∀ (tenant : Tenant) (slot : Slot), x.guard.slots[tenant]? = some slot →
    lastUse? tenant (ofConfig config) steps = some slot.lastUsed ∧ slot.lastUsed ≤ x.clock
  bounded : x.guard.size ≤ max config.capacity (peak (ofConfig config) steps)

theorem recorded_ofConfig (config : GuardConfig) : Recorded config [] (ofConfig config) where
  exact := exact_ofConfig config
  configured := rfl
  stamped tenant slot hslot := by
    have hnone : (Guard.ofConfig config).slots[tenant]? = none := by simp [Guard.ofConfig]
    have hsome : (Guard.ofConfig config).slots[tenant]? = some slot := hslot
    rw [hnone] at hsome
    contradiction
  bounded := Nat.zero_le _

/-- The record is kept up with every step. -/
theorem Recorded.after {config : GuardConfig} {steps : List Step}
    (h : Recorded config steps ((ofConfig config).run steps)) (step : Step) :
    Recorded config (steps ++ [step]) (((ofConfig config).run steps).after step) where
  exact := h.exact.after step
  configured := (config_after _ step).trans h.configured
  stamped tenant slot hslot := by
    have hclock := clock_le_after ((ofConfig config).run steps) step
    rw [lastUse?_concat]
    rcases h.exact.slot_after hslot with ⟨hused, htime⟩ | ⟨hunused, hbefore⟩
    · rw [if_pos hused, htime]
      exact ⟨rfl, hclock⟩
    · obtain ⟨hlast, hpast⟩ := h.stamped tenant slot hbefore
      rw [if_neg hunused, hlast]
      exact ⟨rfl, Nat.le_trans hpast hclock⟩
  bounded := by
    have hsize := h.exact.size_after step
    have hbefore := h.bounded
    rw [h.configured] at hsize
    rw [peak_concat]
    omega

theorem recorded_run (config : GuardConfig) (steps : List Step) :
    Recorded config steps ((ofConfig config).run steps) := by
  induction steps using List.reverseRecOn with
  | nil => exact recorded_ofConfig config
  | append_singleton steps step ih =>
      rw [run_concat]
      exact ih.after step

/-- Whether no permit for a tenant is held after a run, and the last one was given or returned at
least the idle time ago. -/
def hasLapsed (config : GuardConfig) (steps : List Step) (tenant : Tenant) : Bool :=
  let x := (ofConfig config).run steps
  x.isFree tenant &&
    (lastUse? tenant (ofConfig config) steps).any fun time => time + config.idleMillis ≤ x.clock

/-- The tenants that keep their slots when a run is followed by a clearing. -/
def lasting (config : GuardConfig) (steps : List Step) : List Tenant :=
  ((ofConfig config).run steps).tenants.filter fun tenant => !hasLapsed config steps tenant

/-- Who else loses a slot when there is no room after a run. It is nobody while the slots in use
leave no choice or there is room already. Otherwise it is one whose slot is free and was not used
after that of any other free one. -/
structure MakesWay (config : GuardConfig) (steps : List Step) (victim : Option Tenant) : Prop where
  isSome_iff : victim.isSome = true ↔ config.capacity ≤ (lasting config steps).length ∧
    ∃ tenant ∈ lasting config steps, ((ofConfig config).run steps).isFree tenant = true
  first : ∀ tenant, victim = some tenant → tenant ∈ lasting config steps ∧
    ((ofConfig config).run steps).isFree tenant = true ∧
    ∃ time, lastUse? tenant (ofConfig config) steps = some time ∧
      ∀ other ∈ lasting config steps, ((ofConfig config).run steps).isFree other = true →
        ∃ later, lastUse? other (ofConfig config) steps = some later ∧ time ≤ later

theorem mem_tenants {x : Custody} {tenant : Tenant} :
    tenant ∈ x.tenants ↔ ∃ slot, x.guard.slots[tenant]? = some slot := by
  rw [tenants, Std.ExtTreeMap.mem_keys, Std.ExtTreeMap.mem_iff_isSome_getElem?,
    Option.isSome_iff_exists]

/-- The slots that are free are those of the tenants for whom no permit is held. -/
theorem Exact.isFree_eq (h : x.Exact) {tenant : Tenant} {slot : Slot}
    (hslot : x.guard.slots[tenant]? = some slot) : x.isFree tenant = !slot.isHeld := by
  have hholder : slot.isHeld = (x.guard.holder? tenant).isSome := by
    rw [Guard.holder?, hslot]
    rfl
  rw [hholder, Bool.eq_iff_iff, isFree, List.all_eq_true, Bool.not_eq_true', ← Bool.not_eq_true,
    h.isSome_holder?_iff]
  constructor
  · rintro hfree ⟨permit, hpermit, htenant⟩
    exact of_decide_eq_true (hfree permit hpermit) htenant
  · intro hfree permit hpermit
    exact decide_eq_true fun htenant => hfree ⟨permit, hpermit, htenant⟩

namespace Recorded

variable {config : GuardConfig} {steps : List Step} {tenant : Tenant} {slot : Slot}
  (h : Recorded config steps ((ofConfig config).run steps))
include h

/-- The slots that have expired are told by the history. -/
theorem hasLapsed_eq (hslot : ((ofConfig config).run steps).guard.slots[tenant]? = some slot) :
    hasLapsed config steps tenant =
      slot.isExpired config.idleMillis ((ofConfig config).run steps).clock := by
  obtain ⟨hlast, hpast⟩ := h.stamped tenant slot hslot
  unfold hasLapsed Slot.isExpired
  dsimp only
  rw [h.exact.isFree_eq hslot, hlast, Option.any_some]
  congr 2
  apply propext
  omega

theorem mem_lasting : tenant ∈ lasting config steps ↔ ∃ slot,
    (((ofConfig config).run steps).guard.cleared ((ofConfig config).run steps).clock).slots[tenant]?
      = some slot := by
  rw [lasting, List.mem_filter, mem_tenants, Guard.cleared]
  simp only [Std.ExtTreeMap.getElem?_filter', Option.filter_eq_some_iff, h.configured]
  constructor
  · rintro ⟨⟨slot, hslot⟩, hlasts⟩
    rw [h.hasLapsed_eq hslot] at hlasts
    exact ⟨slot, hslot, hlasts⟩
  · rintro ⟨slot, hslot, hlasts⟩
    rw [h.hasLapsed_eq hslot]
    exact ⟨⟨slot, hslot⟩, hlasts⟩

/-- As many slots are left by a clearing. -/
theorem length_lasting : (lasting config steps).length =
    (((ofConfig config).run steps).guard.cleared ((ofConfig config).run steps).clock).size := by
  rw [Guard.size, ← Std.ExtTreeMap.length_keys]
  apply List.Perm.length_eq
  apply (List.perm_ext_iff_of_nodup (Std.ExtTreeMap.nodup_keys.filter _)
    Std.ExtTreeMap.nodup_keys).2
  intro tenant
  rw [Std.ExtTreeMap.mem_keys, Std.ExtTreeMap.mem_iff_isSome_getElem?, Option.isSome_iff_exists]
  exact h.mem_lasting

/-- The victim of the guard is one that makes way. -/
theorem makesWay : MakesWay config steps
    (((ofConfig config).run steps).guard.victim? ((ofConfig config).run steps).clock) := by
  let x := (ofConfig config).run steps
  have hthins : x.guard.Thins (x.guard.cleared x.clock) := x.guard.thins_cleared x.clock
  have hvictim : x.guard.victim? x.clock = if (lasting config steps).length < config.capacity then
      none else (x.guard.cleared x.clock).longestFree? := by
    rw [Guard.victim?, h.configured, h.length_lasting]
  show MakesWay config steps (x.guard.victim? x.clock)
  rw [hvictim]
  constructor
  · by_cases hroom : (lasting config steps).length < config.capacity
    · rw [if_pos hroom]
      simp only [Option.isSome_none, Bool.false_eq_true, false_iff, not_and]
      intro hfull
      omega
    · rw [if_neg hroom, ← Option.ne_none_iff_isSome, ne_eq, Guard.longestFree?_eq_none_iff]
      constructor
      · intro hsome
        refine ⟨Nat.not_lt.1 hroom, ?_⟩
        -- not all of the slots that are left are in use
        by_contra hnobody
        apply hsome
        intro tenant slot hslot
        by_contra hfree
        refine hnobody ⟨tenant, h.mem_lasting.2 ⟨slot, hslot⟩, ?_⟩
        rw [h.exact.isFree_eq (hthins tenant slot hslot)]
        simpa using hfree
      · rintro ⟨-, tenant, hmem, hfree⟩ hheld
        obtain ⟨slot, hslot⟩ := h.mem_lasting.1 hmem
        rw [h.exact.isFree_eq (hthins tenant slot hslot), hheld tenant slot hslot] at hfree
        contradiction
  · intro tenant htenant
    by_cases hroom : (lasting config steps).length < config.capacity
    · rw [if_pos hroom] at htenant
      contradiction
    · rw [if_neg hroom] at htenant
      obtain ⟨slot, hslot, hfree, hleast⟩ := Guard.lastUsed_le_of_longestFree? htenant
      have hbefore := hthins tenant slot hslot
      refine ⟨h.mem_lasting.2 ⟨slot, hslot⟩, ?_, slot.lastUsed, (h.stamped _ _ hbefore).1, ?_⟩
      · rw [h.exact.isFree_eq hbefore, hfree]
        rfl
      · intro other hother hotherFree
        obtain ⟨otherSlot, hotherSlot⟩ := h.mem_lasting.1 hother
        have hotherBefore := hthins other otherSlot hotherSlot
        rw [h.exact.isFree_eq hotherBefore, Bool.not_eq_true'] at hotherFree
        exact ⟨otherSlot.lastUsed, (h.stamped _ _ hotherBefore).1,
          hleast other otherSlot hotherSlot hotherFree⟩

end Recorded

theorem tenants_of_insert {g : Guard} {tenant other : Tenant} {slot : Slot}
    (hslots : x.guard.slots = g.slots.insert tenant slot) :
    other ∈ x.tenants ↔ other = tenant ∨ ∃ slot, g.slots[other]? = some slot := by
  simp only [mem_tenants, hslots, Guard.getElem?_insert]
  by_cases hother : other = tenant
  · simp [hother]
  · simp [hother]

/-- A tenant without a slot gets one. -/
theorem slots_after_acquire_of_new {tenant : Tenant} (h : tenant ∉ x.tenants) :
    ∃ slot, (x.after (.acquire tenant)).guard.slots =
      (x.guard.withRoom x.clock).slots.insert tenant slot := by
  have hnone : x.guard.slots[tenant]? = none := by
    cases hslot : x.guard.slots[tenant]? with
    | none => rfl
    | some slot => exact absurd (mem_tenants.2 ⟨slot, hslot⟩) h
  have hacquire : x.guard.acquire tenant x.clock =
      .ok ((x.guard.withRoom x.clock).grant tenant x.clock) := by
    unfold Guard.acquire
    rw [hnone]
  rw [after_acquire_of_ok hacquire]
  exact ⟨_, rfl⟩

/-- For a tenant that has a slot no other one goes. -/
theorem tenants_after_acquire_of_mem {tenant : Tenant} (h : tenant ∈ x.tenants)
    (other : Tenant) : other ∈ (x.after (.acquire tenant)).tenants ↔ other ∈ x.tenants := by
  cases hacquire : x.guard.acquire tenant x.clock with
  | error f => rw [after_acquire_of_error hacquire]
  | ok given =>
      obtain ⟨permit, guard⟩ := given
      rw [after_acquire_of_ok hacquire]
      obtain ⟨-, ⟨-, rfl⟩ | ⟨hnew, -⟩⟩ := Guard.acquire_eq_ok hacquire
      · rw [tenants_of_insert (Guard.slots_grant _ _ _), ← mem_tenants]
        constructor
        · rintro (rfl | hmem)
          · exact h
          · exact hmem
        · exact .inr
      · exact absurd (Std.ExtTreeMap.mem_keys.1 h) hnew

/-- In every run of a guard there are no more slots than its capacity, or than permits were held at
the same time. To take a permit removes slots only if its tenant has none and there is no room.
Then those go that are free and were last used, as the history has it, at least the idle time ago,
and no others unless it takes another one to make room. An eviction of idle slots removes just
these, and gives their number. -/
theorem evictions_follow_the_last_uses (config : GuardConfig) (steps : List Step) :
    let x := (ofConfig config).run steps
    x.guard.size ≤ max config.capacity (peak (ofConfig config) steps) ∧
      (∀ tenant, (tenant ∈ x.tenants ∨ x.guard.size < config.capacity) →
        ∀ other, other ∈ (x.after (.acquire tenant)).tenants ↔
          other = tenant ∨ other ∈ x.tenants) ∧
      (∀ tenant, tenant ∉ x.tenants → config.capacity ≤ x.guard.size →
        ∃ victim, MakesWay config steps victim ∧
          ∀ other, other ∈ (x.after (.acquire tenant)).tenants ↔
            other = tenant ∨ (other ∈ lasting config steps ∧ victim ≠ some other)) ∧
      (x.guard.evictIdle x.clock).1 = (x.tenants.filter (hasLapsed config steps)).length ∧
      ∀ other, other ∈ (x.after .evictIdle).tenants ↔ other ∈ lasting config steps := by
  intro x
  have h : Recorded config steps x := recorded_run config steps
  have hlasting : ∀ other, other ∈ lasting config steps ↔
      ∃ slot, (x.guard.cleared x.clock).slots[other]? = some slot := fun _ => h.mem_lasting
  refine ⟨h.bounded, ?_, ?_, ?_, ?_⟩
  · rintro tenant hkept other
    by_cases hmem : tenant ∈ x.tenants
    · rw [tenants_after_acquire_of_mem hmem]
      constructor
      · exact .inr
      · rintro (rfl | hother)
        · exact hmem
        · exact hother
    · have hroom := hkept.resolve_left hmem
      obtain ⟨slot, hslots⟩ := slots_after_acquire_of_new hmem
      rw [Guard.withRoom_of_lt (by rw [h.configured]; exact hroom)] at hslots
      rw [tenants_of_insert hslots, ← mem_tenants]
  · intro tenant hnew hfull
    obtain ⟨slot, hslots⟩ := slots_after_acquire_of_new hnew
    refine ⟨x.guard.victim? x.clock, h.makesWay, ?_⟩
    intro other
    rw [tenants_of_insert hslots, hlasting]
    apply or_congr_right
    rw [Guard.getElem?_withRoom_of_le (by rw [h.configured]; exact hfull)]
    by_cases hvictim : x.guard.victim? x.clock = some other
    · simp [hvictim]
    · simp [hvictim]
  · have hboth : x.tenants.length = (x.tenants.filter (hasLapsed config steps)).length +
        (lasting config steps).length := List.length_eq_length_filter_add _
    have hall : x.tenants.length = x.guard.size := Std.ExtTreeMap.length_keys
    have hleft : (lasting config steps).length = (x.guard.cleared x.clock).size :=
      h.length_lasting
    show x.guard.size - (x.guard.cleared x.clock).size = _
    omega
  · intro other
    rw [mem_tenants, hlasting]
    rfl

/-- Two tenants are swept in turn, and the first of them once more. There is no room for a third,
and the slot that goes is not the older one but that of the second tenant. -/
theorem evictions_follow_the_last_uses_of_two_tenants :
    let config : GuardConfig := { capacity := 2 }
    let steps : List Step :=
      [.acquire ⟨"acme"⟩, .drop ⟨⟨"acme"⟩, 0⟩, .wait 10, .acquire ⟨"globex"⟩,
        .drop ⟨⟨"globex"⟩, 1⟩, .wait 10, .acquire ⟨"acme"⟩, .drop ⟨⟨"acme"⟩, 2⟩]
    let x := (ofConfig config).run steps
    x.tenants = [⟨"acme"⟩, ⟨"globex"⟩] ∧ MakesWay config steps (some ⟨"globex"⟩) ∧
      ⟨"globex"⟩ ∉ (x.after (.acquire ⟨"initech"⟩)).tenants := by
  intro config steps x
  have hnew : ⟨"initech"⟩ ∉ x.tenants := by decide +kernel
  have hfull : config.capacity ≤ x.guard.size := by decide +kernel
  have hlasting : lasting config steps = [⟨"acme"⟩, ⟨"globex"⟩] := by decide +kernel
  have hfree : x.isFree ⟨"globex"⟩ = true := by decide +kernel
  have hacme : lastUse? ⟨"acme"⟩ (ofConfig config) steps = some 20 := by decide +kernel
  have hglobex : lastUse? ⟨"globex"⟩ (ofConfig config) steps = some 10 := by decide +kernel
  obtain ⟨victim, hvictim, hkept⟩ :=
    (evictions_follow_the_last_uses config steps).2.2.1 ⟨"initech"⟩ hnew hfull
  have hsome : victim.isSome = true := by
    rw [hvictim.isSome_iff, hlasting]
    exact ⟨Nat.le_refl 2, ⟨"globex"⟩, by simp, hfree⟩
  obtain ⟨gone, rfl⟩ := Option.isSome_iff_exists.1 hsome
  obtain ⟨hmem, -, time, htime, hfirst⟩ := hvictim.first gone rfl
  obtain ⟨later, hlater, hle⟩ := hfirst ⟨"globex"⟩ (by rw [hlasting]; simp) hfree
  have hgone : gone = ⟨"globex"⟩ := by
    rw [hlasting, List.mem_cons, List.mem_singleton] at hmem
    refine hmem.resolve_left ?_
    rintro rfl
    have htwenty : 20 = time := Option.some.inj (hacme.symm.trans htime)
    have hten : 10 = later := Option.some.inj (hglobex.symm.trans hlater)
    omega
  subst hgone
  refine ⟨by decide +kernel, hvictim, ?_⟩
  rw [hkept]
  simp

end Custody
end SalientGraph
