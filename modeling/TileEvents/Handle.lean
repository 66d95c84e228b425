import TileEvents.Program.Basic
import TileEvents.Text.Record

/-!
# Handles on mapped registers

On a real tile the register windows are memory at a fixed address.  A `Handle` owns one of them for
as long as a driver uses it, and gives it back unchanged.
-/

set_option autoImplicit false

namespace TileEvents

/-- Registers that are mapped from an address on. -/
structure MappedWindow where
  base : Nat
deriving DecidableEq

def MappedWindow.describe (m : MappedWindow) : String :=
  Text.record "Mmio" [("base", toString m.base)]

/-- A driver's hold on the registers of a window. -/
structure Handle where
  window : Window
  registers : MappedWindow
deriving DecidableEq

namespace Handle

/-- Gives the registers back. -/
def release (h : Handle) : MappedWindow := h.registers

/-- What drives the registers of a window. -/
def driverName : Window → String
  | .eventUnit => "EventUnit"
  | .dma => "DmaTracker"

def describe (h : Handle) : String :=
  Text.record (driverName h.window) [("regs", h.registers.describe)]

end Handle
end TileEvents
