/-!
# The two directions of the data mover

A tile's data mover has two front-ends: one copies from the shared memory into the tile's own
memory, the other copies back.  Each front-end has its own bank of registers and posts four
signals of its own into the event buffer, so almost everything about transfers is indexed by a
`Direction`.
-/

set_option autoImplicit false

namespace TileEvents

/-- One front-end of the data mover, named for where it reads and where it writes. -/
inductive Direction
  /-- From the shared memory into the tile. -/
  | l2ToL1
  /-- From the tile into the shared memory. -/
  | l1ToL2
deriving DecidableEq

/-- What one front-end can report about its transfers. -/
inductive DmaSignal
  /-- A transfer retired. -/
  | done
  /-- A transfer failed. -/
  | error
  /-- A transfer was started. -/
  | start
  /-- A transfer is in flight. -/
  | busy
deriving DecidableEq

namespace Direction

/-- Both front-ends, by number. -/
def both : List Direction := [l2ToL1, l1ToL2]

/-- The number by which the event lines of a front-end are told apart. -/
def number : Direction → Nat
  | l2ToL1 => 0
  | l1ToL2 => 1

def name : Direction → String
  | l2ToL1 => "L2ToL1"
  | l1ToL2 => "L1ToL2"

/-- Where the registers of this front-end start inside the data mover's window. -/
def window : Direction → Nat
  | l2ToL1 => 0x100
  | l1ToL2 => 0x000

theorem mem_both (d : Direction) : d ∈ both := by cases d <;> decide

/-- There are only two. -/
theorem eq_of_ne_of_ne {d e f : Direction} (hd : d ≠ f) (he : e ≠ f) : d = e := by
  cases d <;> cases e <;> cases f <;> first | rfl | exact absurd rfl hd | exact absurd rfl he

end Direction

namespace DmaSignal

/-- The signals of a front-end, in the order of their event lines. -/
def all : List DmaSignal := [done, error, start, busy]

/-- The signal's part of an event line's label. -/
def label : DmaSignal → String
  | done => "done"
  | error => "error"
  | start => "start"
  | busy => "busy"

/-- The signal's part of an event line's name. -/
def name : DmaSignal → String
  | done => "Done"
  | error => "Error"
  | start => "Start"
  | busy => "Busy"

end DmaSignal

end TileEvents
