import TileEvents.Platform.Basic
import TileEvents.Text.Hex

/-!
# Reading the events of a run

An access is written in a few letters: `e` or `d` for the window, `r` or `w` for a read or a write,
then the offset and the value, as in `er20=4`; `s10` is a spin of ten cycles and `z` a sleep.
Records are no accesses.
-/

set_option autoImplicit false

namespace TileEvents

/-- The letter of a window. -/
def Window.letter : Window → String
  | eventUnit => "e"
  | dma => "d"

namespace Event

/-- The short form of an access. -/
def access? : Event → Option String
  | read w o v => some (w.letter ++ "r" ++ Text.hexBare o ++ "=" ++ Text.hexBare v.toNat)
  | write w o v => some (w.letter ++ "w" ++ Text.hexBare o ++ "=" ++ Text.hexBare v.toNat)
  | spin cycles => some ("s" ++ toString cycles.toNat)
  | suspend => some "z"
  | report _ _ => none

/-- The record that an event is. -/
def record? : Event → Option (Severity × String)
  | report s text => some (s, text)
  | _ => none

def isRead : Event → Bool
  | read _ _ _ => true
  | _ => false

def isWrite : Event → Bool
  | write _ _ _ => true
  | _ => false

def isSpin : Event → Bool
  | spin _ => true
  | _ => false

def isSuspend : Event → Bool
  | suspend => true
  | _ => false

end Event
end TileEvents
