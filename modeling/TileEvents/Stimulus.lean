import TileEvents.Dma.Channel
import TileEvents.Mask.Lines

/-!
# What the hardware does on its own

The lines of the event buffer go up without the driver's doing.  A `Stimulus` is one such
occasion: an edge on some lines, or a transfer that retires on a channel of the data mover and so
raises the done line of that channel's front-end.
-/

set_option autoImplicit false

namespace TileEvents

/-- Something that the hardware does at a point in time. -/
inductive Stimulus
  /-- The lines of a mask go up. -/
  | edge (mask : EventMask)
  /-- The oldest transfer in flight on a channel retires. -/
  | retire (channel : Channel)
deriving DecidableEq

namespace Stimulus

/-- The lines that go up. -/
def lines : Stimulus → EventMask
  | edge m => m
  | retire c => (Line.dma c.direction .done).mask

def describe : Stimulus → String
  | edge m => Text.tagged "Edge" m.describe
  | retire c => Text.tagged "Retire" c.describe

end Stimulus
end TileEvents
