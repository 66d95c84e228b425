import TileEvents.Dma.Direction

/-!
# The event lines of a tile

Every unit of a tile that can report something owns fixed lines of one shared 32-bit event
buffer.  `Line` lists the lines that have a meaning; `Line.position` says which bit of the buffer
each one is.  Fourteen of the 32 positions are not wired to anything, which is why the way back,
`Line.ofPosition?`, is partial: it succeeds exactly on the positions of lines, of which no two share
one (`ofPosition?_eq_some_iff`).
-/

set_option autoImplicit false

namespace TileEvents

/-- A wired line of the event buffer. -/
inductive Line
  /-- Broadcast of a synchronisation between tiles. -/
  | sync
  | dispatch
  /-- One signal of one front-end of the data mover. -/
  | dma (direction : Direction) (signal : DmaSignal)
  | timer0
  | timer1
  /-- The accelerator's first line, which it never raises. -/
  | accReserved
  | accBusy
  | accDone
  | accAux
  | barrierDone
  | barrierError
deriving DecidableEq

namespace Line

/-- The bit of the event buffer that the line is. -/
def position : Line → Nat
  | sync => 0
  | dispatch => 1
  | dma d .done => 2 + d.number
  | timer0 => 4
  | timer1 => 5
  | accReserved => 8
  | accBusy => 9
  | accDone => 10
  | accAux => 11
  | barrierDone => 24
  | barrierError => 25
  | dma d .error => 26 + d.number
  | dma d .start => 28 + d.number
  | dma d .busy => 30 + d.number

/-- How the line is spelled in the text of a set of lines. -/
def label : Line → String
  | sync => "sync"
  | dispatch => "dispatch"
  | dma d s => s!"dma-dir{d.number}-{s.label}"
  | timer0 => "timer0"
  | timer1 => "timer1"
  | accReserved => "accelerator-reserved"
  | accBusy => "accelerator-busy"
  | accDone => "accelerator-done"
  | accAux => "accelerator-aux"
  | barrierDone => "barrier-done"
  | barrierError => "barrier-error"

/-- The short name of the line. -/
def name : Line → String
  | sync => "Sync"
  | dispatch => "Dispatch"
  | dma d s => s!"Dma{d.number}{s.name}"
  | timer0 => "Timer0"
  | timer1 => "Timer1"
  | accReserved => "AccReserved"
  | accBusy => "AccBusy"
  | accDone => "AccDone"
  | accAux => "AccAux"
  | barrierDone => "BarrierDone"
  | barrierError => "BarrierError"

/-- Every line, lowest position first. -/
def all : List Line :=
  [sync, dispatch, dma .l2ToL1 .done, dma .l1ToL2 .done, timer0, timer1,
   accReserved, accBusy, accDone, accAux, barrierDone, barrierError,
   dma .l2ToL1 .error, dma .l1ToL2 .error, dma .l2ToL1 .start, dma .l1ToL2 .start,
   dma .l2ToL1 .busy, dma .l1ToL2 .busy]

/-- The line at a position of the buffer, if one is wired there. -/
def ofPosition? (p : Nat) : Option Line := all.find? fun l ↦ l.position == p

/-! ## Lines and positions determine each other -/

theorem mem_all (l : Line) : l ∈ all := by
  rcases l with _ | _ | ⟨_ | _, _ | _ | _ | _⟩ | _ | _ | _ | _ | _ | _ | _ | _ <;> decide

theorem position_lt (l : Line) : l.position < 32 := by
  have h : ∀ l ∈ all, l.position < 32 := by decide
  exact h l (mem_all l)

theorem ofPosition?_position (l : Line) : ofPosition? l.position = some l := by
  have h : ∀ l ∈ all, ofPosition? l.position = some l := by decide
  exact h l (mem_all l)

theorem ofPosition?_eq_some_iff {p : Nat} {l : Line} :
    ofPosition? p = some l ↔ l.position = p := by
  constructor
  · intro h
    simpa using List.find?_some h
  · rintro rfl
    exact ofPosition?_position l

end Line

end TileEvents
