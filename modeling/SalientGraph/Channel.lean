import SalientGraph.ChangeEvent
import SalientGraph.Fault

/-!
# The channel for change events

Every subscriber reads every event that is sent while it is subscribed. The channel
keeps the latest events only; a subscriber who falls behind loses the oldest ones and
is told how many.
-/

namespace SalientGraph

structure Channel where
  capacity : Nat
  /-- The latest events, the oldest of them first. -/
  kept : List ChangeEvent
  /-- The number of events sent so far. -/
  sent : Nat
  subscribers : Nat

/-- The place of a subscriber: the number of events before the next one to read. -/
structure Subscription where
  next : Nat
deriving DecidableEq, Inhabited

/-- What a subscriber finds. -/
inductive Received where
  | event (e : ChangeEvent)
  | empty
  /-- So many of the oldest unread events are lost. -/
  | lagged (n : Nat)

namespace Channel

/-- A channel that keeps at least `capacity` events: as many as the next power of two. -/
def ofCapacity (capacity : Nat) : Channel :=
  ⟨(max capacity 1).nextPowerOfTwo, [], 0, 0⟩

/-- A new subscriber reads what is sent from now on. -/
def subscribe (c : Channel) : Subscription × Channel :=
  (⟨c.sent⟩, { c with subscribers := c.subscribers + 1 })

def unsubscribe (c : Channel) : Channel :=
  { c with subscribers := c.subscribers - 1 }

/-- Sends an event, unless nobody would read it. -/
def send (c : Channel) (e : ChangeEvent) : Except Fault Channel :=
  if c.subscribers = 0 then .error (.unavailable "no change subscribers")
  else
    let all := c.kept ++ [e]
    .ok { c with kept := all.drop (all.length - c.capacity), sent := c.sent + 1 }

/-- The number of events that are kept no more. -/
def lost (c : Channel) : Nat :=
  c.sent - c.kept.length

/-- Reads on. After a loss, reading goes on with the oldest event that is kept. -/
def receive (c : Channel) (s : Subscription) : Received × Subscription :=
  if s.next < c.lost then (.lagged (c.lost - s.next), ⟨c.lost⟩)
  else
    match c.kept[s.next - c.lost]? with
    | some e => (.event e, ⟨s.next + 1⟩)
    | none => (.empty, s)

end Channel
end SalientGraph
