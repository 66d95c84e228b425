import TileEvents.Line

/-!
# The registers of the event unit

Each register is at a fixed offset into the event unit's window.  The three masks can be written
as a whole or, through two further registers each, by the bits to clear or the bits to set.  Each
of the eight software events has a register that triggers it and one that triggers it and reads
the answer.

`Register.ofOffset?` finds the register at an offset, and finds every register at its own
(`ofOffset?_offset`).  The trigger registers are found at any byte of their word.
-/

set_option autoImplicit false

namespace TileEvents

/-- How many events software can trigger. -/
def swEventCount : Nat := 8

namespace EventUnit

/-- A register of the event unit. -/
inductive Register
  /-- The lines that are reported. -/
  | mask
  | maskAnd
  | maskOr
  /-- The lines that wake the hart. -/
  | irqMask
  | irqMaskAnd
  | irqMaskOr
  /-- Whether the clock is on. -/
  | status
  /-- The lines that are up. -/
  | buffer
  /-- The lines that are up and reported. -/
  | bufferMasked
  /-- The lines that are up and wake the hart. -/
  | bufferIrqMasked
  /-- Takes lines down. -/
  | bufferClear
  /-- The cores that software events go to. -/
  | swMask
  | swMaskAnd
  | swMaskOr
  /-- A read sleeps until a reported line is up. -/
  | eventWait
  /-- A read sleeps until a reported line is up and then takes all lines down. -/
  | eventWaitClear
  /-- Triggers a software event. -/
  | trigger (id : Fin swEventCount)
  /-- A read triggers a software event. -/
  | triggerWait (id : Fin swEventCount)
deriving DecidableEq

namespace Register

/-- Where the register is in its window. -/
def offset : Register → Nat
  | mask => 0x00
  | maskAnd => 0x04
  | maskOr => 0x08
  | irqMask => 0x0C
  | irqMaskAnd => 0x10
  | irqMaskOr => 0x14
  | status => 0x18
  | buffer => 0x1C
  | bufferMasked => 0x20
  | bufferIrqMasked => 0x24
  | bufferClear => 0x28
  | swMask => 0x2C
  | swMaskAnd => 0x30
  | swMaskOr => 0x34
  | eventWait => 0x38
  | eventWaitClear => 0x3C
  | trigger id => 0x600 + 4 * id.val
  | triggerWait id => 0x640 + 4 * id.val

/-- The software event whose word, in a bank that starts at `base`, an offset is in. -/
def swEvent? (base offset : Nat) : Option (Fin swEventCount) :=
  if base ≤ offset then
    if h : (offset - base) / 4 < swEventCount then some ⟨(offset - base) / 4, h⟩ else none
  else none

/-- The register at an offset. -/
def ofOffset? (o : Nat) : Option Register :=
  match o with
  | 0x00 => some mask
  | 0x04 => some maskAnd
  | 0x08 => some maskOr
  | 0x0C => some irqMask
  | 0x10 => some irqMaskAnd
  | 0x14 => some irqMaskOr
  | 0x18 => some status
  | 0x1C => some buffer
  | 0x20 => some bufferMasked
  | 0x24 => some bufferIrqMasked
  | 0x28 => some bufferClear
  | 0x2C => some swMask
  | 0x30 => some swMaskAnd
  | 0x34 => some swMaskOr
  | 0x38 => some eventWait
  | 0x3C => some eventWaitClear
  | o => ((swEvent? 0x600 o).map trigger).or ((swEvent? 0x640 o).map triggerWait)

theorem ofOffset?_offset (r : Register) : ofOffset? r.offset = some r := by
  have ht : ∀ id : Fin swEventCount, ofOffset? (trigger id).offset = some (trigger id) := by decide
  have hw : ∀ id : Fin swEventCount, ofOffset? (triggerWait id).offset = some (triggerWait id) := by
    decide
  cases r with
  | trigger id => exact ht id
  | triggerWait id => exact hw id
  | _ => rfl

end Register
end EventUnit
end TileEvents
