import TileEvents.Mask.Basic

/-!
# Named groups of lines

The lines that belong together, as masks: those of one unit, or those of one kind.
-/

set_option autoImplicit false

namespace TileEvents
namespace EventMask

/-- The set of a list of lines. -/
def ofLines (ls : List Line) : EventMask := unions (ls.map Line.mask)

theorem mem_ofLines {ls : List Line} {i : Nat} : i ∈ ofLines ls ↔ ∃ l ∈ ls, i = l.position := by
  rw [ofLines, mem_unions]
  constructor
  · rintro ⟨n, hn, hi⟩
    obtain ⟨l, hl, rfl⟩ := List.mem_map.1 hn
    exact ⟨l, hl, Line.mem_mask.1 hi⟩
  · rintro ⟨l, hl, hi⟩
    exact ⟨l.mask, List.mem_map.2 ⟨l, hl, rfl⟩, Line.mem_mask.2 hi⟩

/-- All lines of the accelerator. -/
def accelerator : EventMask := ofLines [.accReserved, .accBusy, .accDone, .accAux]

/-- The lines with one signal of either front-end of the data mover. -/
def dmaAny (s : DmaSignal) : EventMask := ofLines (Direction.both.map (Line.dma · s))

/-- What the data mover reports beside retired transfers. -/
def dmaStatus : EventMask := dmaAny .error ∪ dmaAny .start ∪ dmaAny .busy

/-- Both lines of the barrier. -/
def barrier : EventMask := ofLines [.barrierDone, .barrierError]

/-- Both timers. -/
def timers : EventMask := ofLines [.timer0, .timer1]

end EventMask
end TileEvents
