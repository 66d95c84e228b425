import TileEvents.Platform.Basic

/-!
# Registers that follow a script

Registers without any hardware behind them: each holds a word, and may have values in store.  A
read takes the next value in store, if there is one, and holds it from then on; a write replaces
the word and leaves the store alone.  A register that was never mentioned holds 0.

The hart of such a platform does nothing.
-/

set_option autoImplicit false

namespace TileEvents

/-- A register that follows a script. -/
structure ScriptedCell where
  word : UInt32
  store : List UInt32
deriving DecidableEq

namespace ScriptedCell

/-- A register that was never mentioned. -/
def blank : ScriptedCell := ⟨0, []⟩

/-- The register after a read.  The word it holds then is what the read returns. -/
def next (c : ScriptedCell) : ScriptedCell :=
  match c.store with
  | [] => c
  | v :: store => ⟨v, store⟩

end ScriptedCell

/-- A window of registers that follow a script, by offset. -/
abbrev ScriptedWindow := List (Nat × ScriptedCell)

namespace ScriptedWindow

/-- The window in which registers have values in store. -/
def ofScript (script : List (Nat × List UInt32)) : ScriptedWindow :=
  script.map fun p ↦ (p.1, ⟨0, p.2⟩)

/-- The register at an offset. -/
def get : ScriptedWindow → Nat → ScriptedCell
  | [], _ => .blank
  | (o', c) :: w, o => if o' = o then c else get w o

/-- The window with another register at an offset. -/
def set : ScriptedWindow → Nat → ScriptedCell → ScriptedWindow
  | [], o, c => [(o, c)]
  | (o', c') :: w, o, c => if o' = o then (o, c) :: w else (o', c') :: set w o c

def read (w : ScriptedWindow) (o : Nat) : UInt32 × ScriptedWindow :=
  let c := (w.get o).next
  (c.word, w.set o c)

def write (w : ScriptedWindow) (o : Nat) (value : UInt32) : ScriptedWindow :=
  w.set o { w.get o with word := value }

end ScriptedWindow

/-- Both windows, each with its script. -/
structure Scripted where
  eventUnit : ScriptedWindow
  dma : ScriptedWindow

namespace Scripted

def read (w : Window) (o : Nat) (s : Scripted) : UInt32 × Scripted :=
  match w with
  | .eventUnit =>
    let (value, cells) := s.eventUnit.read o
    (value, { s with eventUnit := cells })
  | .dma =>
    let (value, cells) := s.dma.read o
    (value, { s with dma := cells })

def write (w : Window) (o : Nat) (value : UInt32) (s : Scripted) : Scripted :=
  match w with
  | .eventUnit => { s with eventUnit := s.eventUnit.write o value }
  | .dma => { s with dma := s.dma.write o value }

def platform : Platform Scripted where
  read := fun w o s ↦ .ok (s.read w o)
  write := fun w o value s ↦ .ok (s.write w o value)
  spin := fun _ s ↦ .ok s
  suspend := fun s ↦ .ok s

end Scripted
end TileEvents
