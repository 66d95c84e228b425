import TileEvents.Platform.Basic

/-!
# Plain memory in place of registers

A block of memory, mapped as both windows at once.  Reads return what was written last, and
nothing else happens.  Accesses are to whole words: an offset inside a word is a fault.
-/

set_option autoImplicit false

namespace TileEvents

/-- A block of memory, word by word. -/
structure Memory where
  words : Array UInt32
deriving DecidableEq

namespace Memory

/-- Memory of a size, all zero but for the words given with their indices. -/
def ofWords (size : Nat) (values : List (Nat × UInt32)) : Memory :=
  ⟨values.foldl (fun a p ↦ a.setIfInBounds p.1 p.2) (Array.replicate size 0)⟩

/-- The index of the word at an offset. -/
def index (o : Nat) : Except Fault Nat := if o % 4 = 0 then .ok (o / 4) else .error (.unaligned o)

/-- Reads the word at an offset. -/
def read (m : Memory) (o : Nat) : Except Fault (UInt32 × Memory) := do
  let i ← index o
  return (m.words.getD i 0, m)

/-- Writes the word at an offset. -/
def write (m : Memory) (o : Nat) (value : UInt32) : Except Fault Memory := do
  let i ← index o
  return ⟨m.words.setIfInBounds i value⟩

/-- The words that are not 0, with their indices. -/
def nonzero (m : Memory) : List (Nat × UInt32) :=
  m.words.toList.zipIdx.filterMap fun (value, i) ↦ if value = 0 then none else some (i, value)

def platform : Platform Memory where
  read := fun _ o m ↦ m.read o
  write := fun _ o value m ↦ m.write o value
  spin := fun _ m ↦ .ok m
  suspend := fun m ↦ .ok m

end Memory
end TileEvents
