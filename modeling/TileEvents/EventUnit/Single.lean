import TileEvents.EventUnit.WaitAny

/-!
# Waiting for one device

Shortcuts for a program that has one device to wait for, and questions about a device's lines.  The
questions see reported lines only, with one exception: `dmaAnyError` is for errors of the data
mover whether or not they are reported.
-/

set_option autoImplicit false

namespace TileEvents
namespace EventUnit

/-- Prepares for one device: takes every line down, has the device's lines reported and, if `irq`,
lets its done line wake the hart. -/
def initDevice (d : Device) (irq : Bool) : Driver Unit := do
  clear .all
  enable d.eventMask
  if irq then
    enableIrq d.doneMask

/-- Waits for a device; with the default budget, if polling. -/
def waitDevice (d : Device) (mode : WaitMode) : Driver (Except WaitError EventMask) :=
  waitAnyOf d.doneMask mode .default

/-- A line of `m` is reported and up. -/
def isUp (m : EventMask) : Driver Bool := do return !(← observe m).isEmpty

def isDone (d : Device) : Driver Bool := isUp d.doneMask

/-- The device is at work.  Never true of one without a line for that. -/
def isBusy (d : Device) : Driver Bool := isUp d.busyMask

/-- The device has failed.  Never true of one without a line for that. -/
def hasError (d : Device) : Driver Bool := isUp d.errorMask

/-- A front-end of the data mover has failed, reported or not. -/
def dmaAnyError : Driver Bool := do return (← pending).intersects (.dmaAny .error)

end EventUnit
end TileEvents
