import TileEvents.Dma.Direction
import TileEvents.Error
import TileEvents.Text.Record

/-!
# Channels and transfers of the data mover

Each front-end of the data mover has `channelCount` channels.  A channel numbers the transfers it
starts 1, 2, 3 and so on, and remembers the number of the one that retired last; 0 says that none
has, and is no transfer's number.
-/

set_option autoImplicit false

namespace TileEvents

/-- Channels of one front-end. -/
def channelCount : Nat := 16

/-- One channel of one front-end. -/
structure Channel where
  direction : Direction
  index : Fin channelCount
deriving DecidableEq

namespace Channel

/-- The first channel of a front-end, on which the waits for the whole data mover look. -/
def first (d : Direction) : Channel := ⟨d, ⟨0, by decide⟩⟩

/-- The channel with an index that comes from outside. -/
def ofIndex (d : Direction) (i : Nat) : Except WaitError Channel :=
  if h : i < channelCount then .ok ⟨d, ⟨i, h⟩⟩ else .error .invalidChannel

/-- Every channel, front-end by front-end. -/
def all : List Channel :=
  Direction.both.flatMap fun d ↦ (List.finRange channelCount).map (Channel.mk d)

theorem mem_all (c : Channel) : c ∈ all :=
  List.mem_flatMap.2 ⟨c.direction, Direction.mem_both _,
    List.mem_map.2 ⟨c.index, List.mem_finRange _, rfl⟩⟩

def describe (c : Channel) : String :=
  Text.record "Channel" [("direction", c.direction.name), ("index", toString c.index.val)]

end Channel

/-- The number of a transfer on its channel. -/
structure TransferId where
  number : UInt32
deriving DecidableEq

namespace TransferId

instance : Inhabited TransferId := ⟨⟨0⟩⟩

/-- Some transfer can have this number. -/
def isValid (t : TransferId) : Bool := t.number != 0

instance : LT TransferId := ⟨fun a b ↦ a.number < b.number⟩

instance : LE TransferId := ⟨fun a b ↦ a.number ≤ b.number⟩

instance (a b : TransferId) : Decidable (a < b) :=
  inferInstanceAs (Decidable (a.number < b.number))

instance (a b : TransferId) : Decidable (a ≤ b) :=
  inferInstanceAs (Decidable (a.number ≤ b.number))

/-- Transfers of a channel are ordered as they are started. -/
instance : Ord TransferId := ⟨fun a b ↦ compare a.number b.number⟩

instance : Max TransferId := maxOfLe

def describe (t : TransferId) : String := Text.tagged "TransferId" (toString t.number.toNat)

theorem isValid_iff {t : TransferId} : t.isValid = true ↔ t.number ≠ 0 := bne_iff_ne

end TransferId
end TileEvents
