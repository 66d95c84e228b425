import TileEvents.EventUnit.Register
import TileEvents.Program.Driver

/-!
# Driving the event unit

The operations on the event unit that take a fixed number of accesses.

The hardware raises lines in the event buffer; software takes them down by writing the lines to
take down, and so cannot lose an edge on a line it does not name.  `take` is the only operation
here by which a wait consumes events: it looks at the reported lines of a mask and takes down
exactly the ones it saw.  `ends_take` says that what it returns is within the mask, whatever the
hardware replies.
-/

set_option autoImplicit false

namespace TileEvents
namespace EventUnit

def readRegister (r : Register) : Driver UInt32 := Driver.read .eventUnit r.offset

def writeRegister (r : Register) (value : UInt32) : Driver Unit :=
  Driver.write .eventUnit r.offset value

/-- A register that holds a set of lines. -/
def readLines (r : Register) : Driver EventMask := do return ⟨← readRegister r⟩

/-! ## Masks -/

/-- Adds lines to the reported ones. -/
def enable (m : EventMask) : Driver Unit := writeRegister .maskOr m.bits

/-- Takes lines out of the reported ones. -/
def disable (m : EventMask) : Driver Unit := writeRegister .maskAnd m.bits

/-- Adds lines to those that wake the hart. -/
def enableIrq (m : EventMask) : Driver Unit := writeRegister .irqMaskOr m.bits

/-- Takes lines out of those that wake the hart. -/
def disableIrq (m : EventMask) : Driver Unit := writeRegister .irqMaskAnd m.bits

/-- The lines that are reported. -/
def enabled : Driver EventMask := readLines .mask

/-- The lines that wake the hart. -/
def irqEnabled : Driver EventMask := readLines .irqMask

/-! ## The buffer -/

/-- The lines that are up, reported or not. -/
def pending : Driver EventMask := readLines .buffer

/-- The reported lines that are up. -/
def pendingMasked : Driver EventMask := readLines .bufferMasked

/-- The lines that are up and wake the hart. -/
def pendingIrqMasked : Driver EventMask := readLines .bufferIrqMasked

/-- The reported lines of `m` that are up.  Takes nothing down. -/
def observe (m : EventMask) : Driver EventMask := do return (← pendingMasked) ∩ m

/-- Takes the lines of `m` down and no others. -/
def clear (m : EventMask) : Driver Unit := writeRegister .bufferClear m.bits

/-- Looks at the reported lines of `m` and takes down the ones that are up. -/
def take (m : EventMask) : Driver EventMask := do
  let seen ← observe m
  if seen.isEmpty then
    return seen
  else
    clear seen
    return seen

/-- Takes everything down and reports nothing from here on. -/
def init : Driver Unit := do
  clear .all
  writeRegister .mask 0
  writeRegister .irqMask 0

/-! ## The clock and the software events -/

/-- The event unit's clock is on. -/
def clockEnabled : Driver Bool := do return (← readRegister .status) &&& 1 != 0

/-- Adds cores to those that software events go to. -/
def enableSwTargets (cores : UInt32) : Driver Unit := writeRegister .swMaskOr cores

/-- Takes cores out of those that software events go to. -/
def disableSwTargets (cores : UInt32) : Driver Unit := writeRegister .swMaskAnd cores

/-- The cores that software events go to. -/
def swTargets : Driver UInt32 := readRegister .swMask

/-- Triggers a software event. -/
def triggerSwEvent (id : Nat) : Driver (Except WaitError Unit) := do
  if h : id < swEventCount then
    writeRegister (.trigger ⟨id, h⟩) 1
    return .ok ()
  else
    return .error .invalidSwEvent

/-- Triggers a software event and returns the reported lines that are up then. -/
def triggerSwEventWait (id : Nat) : Driver (Except WaitError EventMask) := do
  if h : id < swEventCount then
    return .ok (← readLines (.triggerWait ⟨id, h⟩))
  else
    return .error .invalidSwEvent

/-! ## The unit's own sleep -/

/-- Sleeps in the event unit until a reported line is up, and takes nothing down. -/
def sleep : Driver EventMask := readLines .eventWait

/-- Sleeps in the event unit until a reported line is up.  The unit then takes every line down,
whether the caller has seen it or not, so no wait of this library uses it. -/
def sleepClear : Driver EventMask := readLines .eventWaitClear

/-! ## What the operations end with -/

theorem ends_readLines (r : Register) : (readLines r).Ends fun n _ n' ↦ n' = n :=
  fun _ _ _ ↦ rfl

theorem ends_enableIrq (m : EventMask) : (enableIrq m).Ends fun n _ n' ↦ n' = n := fun _ _ _ ↦ rfl

/-- **What is taken is within the mask, and costs no call of the hart.** -/
theorem ends_take (m : EventMask) : (take m).Ends fun n seen n' ↦ n' = n ∧ seen ⊆ m := by
  intro v n r
  show Program.Ends _ ((ite _ (pure _) _ : Driver EventMask).program v n)
  split
  · exact ⟨rfl, EventMask.inter_subset_right _ _⟩
  · exact fun _ ↦ ⟨rfl, EventMask.inter_subset_right _ _⟩

end EventUnit
end TileEvents
