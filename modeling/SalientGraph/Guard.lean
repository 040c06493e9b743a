import SalientGraph.Config
import SalientGraph.Tenant

/-!
# The guard of sweeps

At most one sweep over a tenant runs at a time. The guard keeps a slot for each
tenant that was swept lately; who takes a free slot gets a permit and returns it in
the end. Taking never waits: the slot of a tenant is free or the attempt is refused.

Slots that were not in use for a while go, either when room is needed or in the
clearings that run at regular intervals. A slot in use never goes. Clearings take
their turns while the owner of the guard waits: `elapse` is waiting, `skip` sets the
clock forward without it.
-/

namespace SalientGraph

/-- The right to sweep a tenant, with a number that no other permit has. -/
structure Permit where
  tenant : Tenant
  number : Nat
deriving DecidableEq, Inhabited

/-- What is known of a tenant: the number of the permit in use, and when the last one was given or
returned. -/
structure Slot where
  holder : Option Nat
  lastUsed : Nat
deriving DecidableEq, Inhabited

namespace Slot

def isHeld (s : Slot) : Bool :=
  s.holder.isSome

/-- Whether the slot is free and was so for at least `idle` milliseconds. -/
def isExpired (s : Slot) (idle now : Nat) : Bool :=
  !s.isHeld && idle ≤ now - s.lastUsed

end Slot

/-- A series of clearings at regular intervals. Its intervals count from its first turn, and from
then on it is known when the next clearing is due. -/
inductive Clearing where
  | ordered
  | due (time : Nat)
deriving DecidableEq, Inhabited

namespace Clearing

/-- The first of the points `start`, `start + interval`, … that is not before `time`. -/
def firstFrom (interval start time : Nat) : Nat :=
  if time ≤ start then start else start + (time - start + interval - 1) / interval * interval

/-- A turn of the series at `now`, for all that was due until `seen`: when it clears, if it does,
and when it is due again. -/
def turn (interval seen now : Nat) : Clearing → Option Nat × Nat
  | ordered => (none, now + interval)
  | due time =>
    if time ≤ seen then (some now, firstFrom interval time (seen + 1)) else (none, time)

/-- The turns of the series from `since` on and before `finish`: when it clears last, if it does,
and when it is due again. -/
def turns (interval since finish : Nat) (c : Clearing) : Option Nat × Nat :=
  let (last, time) := c.turn interval since since
  if time < finish then
    let next := firstFrom interval time finish
    (some (next - interval), next)
  else (last, time)

end Clearing

structure Guard where
  config : GuardConfig
  slots : Std.ExtTreeMap Tenant Slot Tenant.order
  /-- The number of permits given so far. -/
  issued : Nat
  /-- The running series of clearings. -/
  clearings : List Clearing
  /-- No clearing takes place any more. -/
  stopped : Bool

namespace Guard

/-- A guard without slots. -/
def ofConfig (config : GuardConfig) : Guard :=
  ⟨config, ∅, 0, [], false⟩

def size (g : Guard) : Nat :=
  g.slots.size

/-- Whether a permit for the tenant is in use. -/
def isHeld (g : Guard) (tenant : Tenant) : Bool :=
  g.slots[tenant]?.any Slot.isHeld

/-- The guard without the slots that have expired. -/
def cleared (g : Guard) (now : Nat) : Guard :=
  { g with slots := g.slots.filter fun _ slot => !slot.isExpired g.config.idleMillis now }

/-- The tenant whose slot is free for longest. -/
def longestFree? (g : Guard) : Option Tenant :=
  ((g.slots.toList.filter fun entry => !entry.2.isHeld).minOn? fun entry => entry.2.lastUsed).map
    (·.1)

/-- Makes room for one more slot: expired slots go first, then the one that is free for longest.
While all slots are in use there are more of them than the capacity. -/
def withRoom (g : Guard) (now : Nat) : Guard :=
  if g.size < g.config.capacity then g
  else
    let rest := g.cleared now
    if rest.size < rest.config.capacity then rest
    else
      match rest.longestFree? with
      | some tenant => { rest with slots := rest.slots.erase tenant }
      | none => rest

/-- Gives the permit for a tenant. -/
def grant (g : Guard) (tenant : Tenant) (now : Nat) : Permit × Guard :=
  (⟨tenant, g.issued⟩,
    { g with slots := g.slots.insert tenant ⟨some g.issued, now⟩, issued := g.issued + 1 })

/-- Takes the permit for a tenant, or fails if it is in use. -/
def acquire (g : Guard) (tenant : Tenant) (now : Nat) : Except Fault (Permit × Guard) :=
  match g.slots[tenant]? with
  | some slot =>
    if slot.isHeld then
      .error (.conflict ("salience recalculation already running for tenant " ++ tenant.name))
    else .ok (g.grant tenant now)
  | none => .ok ((g.withRoom now).grant tenant now)

/-- Returns a permit. -/
def release (g : Guard) (permit : Permit) (now : Nat) : Guard :=
  match g.slots[permit.tenant]? with
  | some slot =>
    if slot.holder = some permit.number then
      { g with slots := g.slots.insert permit.tenant ⟨none, now⟩ }
    else g
  | none => g

/-- Removes the slots that have expired and counts them. -/
def evictIdle (g : Guard) (now : Nat) : Nat × Guard :=
  (g.size - (g.cleared now).size, g.cleared now)

/-! ## Clearings at regular intervals -/

/-- Starts a series of clearings, the first of them after one interval. Without an interval there
are none. -/
def startClearing (g : Guard) : Guard :=
  if g.stopped || g.config.clearingMillis == 0 then g
  else { g with clearings := g.clearings ++ [.ordered] }

/-- Ends all clearings for good. -/
def stopClearing (g : Guard) : Guard :=
  { g with clearings := [], stopped := true }

/-- The guard after turns of its series. Nothing is taken or returned between them, so whatever an
earlier clearing removes, the last one removes as well. -/
def afterTurns (g : Guard) (turns : List (Option Nat × Nat)) : Guard :=
  let rest :=
    match (turns.filterMap (·.1)).max? with
    | some last => g.cleared last
    | none => g
  { rest with clearings := turns.map fun turn => .due turn.2 }

/-- The guard after the time between two points was waited for. Each clearing takes place when it
is due; one that is due at `finish` itself comes after whatever is done then. -/
def elapse (g : Guard) (since finish : Nat) : Guard :=
  if finish ≤ since then g
  else g.afterTurns (g.clearings.map (Clearing.turns g.config.clearingMillis since finish))

/-- The guard after the clock was set forward. What was due before takes place at the new time;
what has become due waits for the next turn. -/
def skip (g : Guard) (since finish : Nat) : Guard :=
  g.afterTurns (g.clearings.map (Clearing.turn g.config.clearingMillis since finish))

/-- In no time there are no clearings. -/
@[simp] theorem elapse_self (g : Guard) (now : Nat) : g.elapse now now = g := by
  simp [elapse]

/-- A summary for people who look after a running engine. -/
def summary (g : Guard) : String :=
  "RecalcGuard \x7b tenants: " ++ toString g.size
    ++ ", config: GuardConfig \x7b capacity: " ++ toString g.config.capacity
    ++ ", idle_ttl_secs: " ++ toString g.config.idleSeconds
    ++ ", sweep_interval_secs: " ++ toString g.config.clearingSeconds ++ " \x7d \x7d"

end Guard
end SalientGraph
