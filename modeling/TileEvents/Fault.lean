import TileEvents.Stimulus

/-!
# How a run breaks off

An error of a wait is an answer that the caller can act on.  A `Fault` is none: the run stops
where it is, because an access went to where no register is, because the hardware was asked for
something impossible, or because a number left its range.
-/

set_option autoImplicit false

namespace TileEvents

/-- Why a run broke off. -/
inductive Fault
  /-- A sum left its range. -/
  | additionOverflow
  /-- A difference went below zero. -/
  | subtractionOverflow
  /-- No readable register of the event unit is at the offset. -/
  | unmappedRead (offset : Nat)
  /-- No writable register of the event unit is at the offset. -/
  | unmappedWrite (offset : Nat)
  /-- No register of the data mover is at the offset. -/
  | unmappedDma (offset : Nat)
  /-- The data mover's registers can only be read. -/
  | readOnlyDma (offset : Nat)
  /-- The offset is not a multiple of the word size. -/
  | unaligned (offset : Nat)
  /-- A transfer was to retire on a channel that has none in flight. -/
  | nothingInFlight (channel : Channel)
  /-- The hart went to sleep on lines that nothing will ever raise. -/
  | noWakeSource (now : Nat) (lines : EventMask)
  /-- There is no room to schedule one more stimulus. -/
  | scheduleFull (due : Nat) (stimulus : Stimulus)
  /-- There is no room to note one more write to the clearing register. -/
  | clearLogFull (value : EventMask)
deriving DecidableEq

namespace Fault

def message : Fault → String
  | additionOverflow => "attempt to add with overflow"
  | subtractionOverflow => "attempt to subtract with overflow"
  | unmappedRead o => "read from unmapped event unit offset " ++ Text.hexShort o
  | unmappedWrite o => "write to unmapped event unit offset " ++ Text.hexShort o
  | unmappedDma o => "unmapped iDMA offset " ++ Text.hexShort o
  | readOnlyDma o => "write to read-only iDMA offset " ++ Text.hexShort o
  | unaligned o => "unaligned register offset " ++ Text.hexShort o
  | nothingInFlight c => "retiring " ++ c.describe ++ " with nothing in flight"
  | noWakeSource now m =>
    "hart asleep at cycle " ++ toString now ++ " with no wake source for " ++
      Text.hexShort m.bits.toNat
  | scheduleFull due s => "schedule full: (" ++ toString due ++ ", " ++ s.describe ++ ")"
  | clearLogFull m => "clear log full: " ++ toString m.bits.toNat

end Fault
end TileEvents
