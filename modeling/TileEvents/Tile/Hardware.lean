import TileEvents.Dma.Register
import TileEvents.Platform.Basic
import TileEvents.Tile.Basic

/-!
# The simulated tile as hardware

What the registers of a simulated tile do when they are read and written, and the two harts that
can drive it: the tile's own, for which time passes while it spins and sleeps, and one for which
no time passes at all.
-/

set_option autoImplicit false

namespace TileEvents
namespace Tile

/-- Reads the register at an offset of the event unit. -/
def readUnit (t : Tile) (o : Nat) : Except Fault (UInt32 × Tile) :=
  match EventUnit.Register.ofOffset? o with
  | some .mask => .ok (t.mask.bits, t)
  | some .irqMask => .ok (t.irqMask.bits, t)
  | some .status => .ok (if t.clockOn then 1 else 0, t)
  | some .buffer => .ok (t.buffer.bits, t)
  | some .bufferMasked => .ok (t.reported.bits, t)
  | some .bufferIrqMasked => .ok ((t.buffer ∩ t.irqMask).bits, t)
  | some .swMask => .ok (t.swMask, t)
  | some .eventWait => do
    let t ← t.eventWait
    return (t.reported.bits, t)
  | some .eventWaitClear => do
    let t ← t.eventWait
    return (t.reported.bits, { t with buffer := ∅ })
  | some (.triggerWait id) => .ok (t.reported.bits, t.trigger id)
  | _ => .error (.unmappedRead o)

/-- Writes the register at an offset of the event unit. -/
def writeUnit (t : Tile) (o : Nat) (value : UInt32) : Except Fault Tile :=
  match EventUnit.Register.ofOffset? o with
  | some .mask => .ok { t with mask := ⟨value⟩ }
  | some .maskAnd => .ok { t with mask := t.mask \ ⟨value⟩ }
  | some .maskOr => .ok { t with mask := t.mask ∪ ⟨value⟩ }
  | some .irqMask => .ok { t with irqMask := ⟨value⟩ }
  | some .irqMaskAnd => .ok { t with irqMask := t.irqMask \ ⟨value⟩ }
  | some .irqMaskOr => .ok { t with irqMask := t.irqMask ∪ ⟨value⟩ }
  | some .swMask => .ok { t with swMask := value }
  | some .swMaskAnd => .ok { t with swMask := t.swMask &&& ~~~value }
  | some .swMaskOr => .ok { t with swMask := t.swMask ||| value }
  | some .bufferClear =>
    if t.clears.length < clearLogCapacity then
      .ok { t with buffer := t.buffer \ ⟨value⟩, clears := t.clears ++ [⟨value⟩] }
    else .error (.clearLogFull ⟨value⟩)
  | some (.trigger id) => .ok (t.trigger id)
  | _ => .error (.unmappedWrite o)

/-- Reads the register at an offset of the data mover. -/
def readDma (t : Tile) (o : Nat) : Except Fault (UInt32 × Tile) :=
  match Dma.Register.ofOffset? o with
  | none => .error (.unmappedDma o)
  | some ⟨bank, c⟩ =>
    let x := t.transfers c
    match bank with
    | .status => .ok (if x.inFlight then 1 else 0, t)
    | .nextId =>
      if x.issued + 1 < counterLimit then
        .ok (UInt32.ofNat (x.issued + 1), t.setTransfers c { x with issued := x.issued + 1 })
      else .error .additionOverflow
    | .doneId => .ok (UInt32.ofNat x.done, t)

/-- Reads a register. -/
def read (w : Window) (o : Nat) (t : Tile) : Except Fault (UInt32 × Tile) :=
  match w with
  | .eventUnit => t.readUnit o
  | .dma => t.readDma o

/-- Writes a register.  Those of the data mover can only be read. -/
def write (w : Window) (o : Nat) (value : UInt32) (t : Tile) : Except Fault Tile :=
  match w with
  | .eventUnit => t.writeUnit o value
  | .dma => .error (.readOnlyDma o)

/-- The tile with its own hart. -/
def platform : Platform Tile where
  read := read
  write := write
  spin := fun cycles t ↦ t.advance cycles.toNat
  suspend := suspend

/-- The tile with a hart that takes no time and does not sleep. -/
def stillPlatform : Platform Tile where
  read := read
  write := write
  spin := fun _ t ↦ .ok t
  suspend := fun t ↦ .ok t

/-- One of the two harts of a tile. -/
def IsHart (p : Platform Tile) : Prop := p = platform ∨ p = stillPlatform

theorem isHart_platform : IsHart platform := .inl rfl

/-- The registers are the tile's, whichever hart reads and writes them. -/
theorem IsHart.registers {p : Platform Tile} (hp : IsHart p) : p.read = read ∧ p.write = write := by
  rcases hp with rfl | rfl <;> exact ⟨rfl, rfl⟩

end Tile
end TileEvents
