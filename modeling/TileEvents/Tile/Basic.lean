import TileEvents.EventUnit.Register
import TileEvents.Fault
import TileEvents.Tile.Schedule

/-!
# A simulated tile

The event buffer, the masks and the data mover's channels of a tile, and a clock.  The hardware
does nothing by itself: what will happen is scheduled beforehand, and it happens when the clock
gets there.  The clock moves in two ways only.  `advance` moves it by a number of cycles;
`sleepUntil` moves it to the next time that one of some lines goes up, and not at all if that is
overdue.  Either way everything that has come due by then fires, the earliest first.

A stimulus that is scheduled without a delay is due at once but fires only at the next move of the
clock, even one by no cycles.
-/

set_option autoImplicit false

namespace TileEvents

/-- The transfers of one channel: how many were started and how many have retired. -/
structure Transfers where
  issued : Nat
  done : Nat
deriving DecidableEq

namespace Transfers

/-- No transfer yet. -/
def none : Transfers := ⟨0, 0⟩

/-- Some transfer has not retired. -/
def inFlight (t : Transfers) : Bool := decide (t.done < t.issued)

end Transfers

/-- Counters in a tile are 32-bit words. -/
def counterLimit : Nat := 0x100000000

/-- The clock is a 64-bit word. -/
def clockLimit : Nat := 0x10000000000000000

/-- How many writes to the clearing register are noted. -/
def clearLogCapacity : Nat := 128

/-- A tile at a point in time. -/
structure Tile where
  now : Nat
  /-- The lines that are up. -/
  buffer : EventMask
  /-- The lines that are reported. -/
  mask : EventMask
  /-- The lines that wake the hart. -/
  irqMask : EventMask
  /-- The cores that software events go to. -/
  swMask : UInt32
  /-- The software events that were triggered, one bit each. -/
  swTriggers : UInt32
  clockOn : Bool
  /-- How often the hart was put to sleep. -/
  suspends : Nat
  schedule : Schedule
  transfers : Channel → Transfers
  /-- What was written to the clearing register, in order. -/
  clears : List EventMask

namespace Tile

/-- A tile to which nothing has happened. -/
def initial : Tile where
  now := 0
  buffer := ∅
  mask := ∅
  irqMask := ∅
  swMask := 0
  swTriggers := 0
  clockOn := true
  suspends := 0
  schedule := []
  transfers := fun _ ↦ .none
  clears := []

/-- The reported lines that are up. -/
def reported (t : Tile) : EventMask := t.buffer ∩ t.mask

/-- Lines go up. -/
def raise (t : Tile) (m : EventMask) : Tile := { t with buffer := t.buffer ∪ m }

/-- A software event is triggered. -/
def trigger (t : Tile) (id : Fin swEventCount) : Tile :=
  { t with swTriggers := t.swTriggers ||| 1 <<< UInt32.ofNat id.val }

/-- The tile with other transfers on one channel. -/
def setTransfers (t : Tile) (c : Channel) (x : Transfers) : Tile :=
  { t with transfers := fun c' ↦ if c' = c then x else t.transfers c' }

/-! ## Stimuli -/

/-- Schedules a stimulus some cycles from now. -/
def scheduleAfter (t : Tile) (s : Stimulus) (cycles : Nat) : Except Fault Tile :=
  let due := t.now + cycles
  if clockLimit ≤ due then .error .additionOverflow
  else if t.schedule.length < scheduleCapacity then
    .ok { t with schedule := t.schedule ++ [⟨due, s⟩] }
  else .error (.scheduleFull due s)

/-- A stimulus happens. -/
def apply (t : Tile) (s : Stimulus) : Except Fault Tile :=
  match s with
  | .edge m => .ok (t.raise m)
  | .retire c =>
    let x := t.transfers c
    if x.inFlight then .ok ((t.setTransfers c { x with done := x.done + 1 }).raise s.lines)
    else .error (.nothingInFlight c)

/-- The next due stimulus happens, and so on, at most so many times. -/
def fireUpTo : Nat → Tile → Except Fault Tile
  | 0, t => .ok t
  | k + 1, t =>
    match t.schedule.takeDue? t.now with
    | none => .ok t
    | some (e, rest) => do fireUpTo k (← { t with schedule := rest }.apply e.stimulus)

/-- Everything that is due happens. -/
def fireDue (t : Tile) : Except Fault Tile := fireUpTo t.schedule.length t

/-! ## Time -/

/-- The clock moves by some cycles. -/
def advance (t : Tile) (cycles : Nat) : Except Fault Tile :=
  if clockLimit ≤ t.now + cycles then .error .additionOverflow
  else { t with now := t.now + cycles }.fireDue

/-- The clock moves to the next time a line of `m` goes up, whether or not one is up already. -/
def sleepUntil (t : Tile) (m : EventMask) : Except Fault Tile :=
  match t.schedule.nextEdge? m with
  | none => .error (.noWakeSource t.now m)
  | some due => { t with now := max t.now due }.fireDue

/-- The hart sleeps until a line goes up that wakes it. -/
def suspend (t : Tile) : Except Fault Tile :=
  if t.suspends + 1 < counterLimit then
    { t with suspends := t.suspends + 1 }.sleepUntil t.irqMask
  else .error .additionOverflow

/-- The event unit sleeps until a reported line is up. -/
def eventWait (t : Tile) : Except Fault Tile :=
  if t.reported.isEmpty then t.sleepUntil t.mask else .ok t

/-! ## What firing leaves alone -/

@[simp] theorem transfers_setTransfers_self (t : Tile) (c : Channel) (x : Transfers) :
    (t.setTransfers c x).transfers c = x := by
  simp [setTransfers]

theorem transfers_setTransfers_of_ne (t : Tile) {c c' : Channel} (x : Transfers) (h : c' ≠ c) :
    (t.setTransfers c x).transfers c' = t.transfers c' := by
  simp [setTransfers, h]

end Tile
end TileEvents
