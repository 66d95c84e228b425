import TileEvents.Dma.Direction
import TileEvents.Mask.Groups
import TileEvents.Text.Record

/-!
# The devices that post events

A wait is for devices, and a device is known to the event unit by its lines: one that says it is
done and, depending on the device, one for an error and one that is up while it works.
-/

set_option autoImplicit false

namespace TileEvents

/-- A unit of the tile that can be waited for. -/
inductive Device
  | accelerator
  /-- One front-end of the data mover. -/
  | dma (direction : Direction)
  | barrier
deriving DecidableEq

namespace Device

/-- Every device, in the order in which sets of devices list them. -/
def all : List Device := [accelerator, dma .l2ToL1, dma .l1ToL2, barrier]

theorem mem_all (d : Device) : d ∈ all := by rcases d with _ | ⟨_ | _⟩ | _ <;> decide

/-- The line that reports a finished job. -/
def doneLine : Device → Line
  | accelerator => .accDone
  | dma d => .dma d .done
  | barrier => .barrierDone

/-- The line that reports a failed job.  The accelerator has none. -/
def errorLine? : Device → Option Line
  | accelerator => none
  | dma d => some (.dma d .error)
  | barrier => some .barrierError

/-- The line that is up during a job.  The barrier has none. -/
def busyLine? : Device → Option Line
  | accelerator => some .accBusy
  | dma d => some (.dma d .busy)
  | barrier => none

def doneMask (d : Device) : EventMask := d.doneLine.mask

def errorMask (d : Device) : EventMask := .ofLines d.errorLine?.toList

def busyMask (d : Device) : EventMask := .ofLines d.busyLine?.toList

/-- The lines that are enabled for a device. -/
def eventMask : Device → EventMask
  | accelerator => .accelerator
  | dma d => .ofLines [.dma d .done, .dma d .error, .dma d .busy]
  | barrier => .barrier

def describe : Device → String
  | accelerator => "Accelerator"
  | dma d => Text.tagged "Dma" d.name
  | barrier => "Barrier"

end Device
end TileEvents
