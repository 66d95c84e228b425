import TileEvents.Dma.Channel

/-!
# The registers of the data mover

Each front-end has three banks of registers, and each bank one word for each channel.
`Register.ofOffset?` finds the register at an offset, and finds every register at its own
(`ofOffset?_offset`).  Registers are found at any byte of their word; offsets from the second
front-end's window on are that front-end's, however large.
-/

set_option autoImplicit false

namespace TileEvents
namespace Dma

/-- What a bank of registers is for. -/
inductive Bank
  /-- Whether the channel has a transfer in flight. -/
  | status
  /-- A read starts a transfer and returns its number. -/
  | nextId
  /-- The number of the transfer that retired last. -/
  | doneId
deriving DecidableEq

namespace Bank

def all : List Bank := [status, nextId, doneId]

/-- Where the bank starts in its front-end's registers. -/
def base : Bank → Nat
  | status => 0x04
  | nextId => 0x44
  | doneId => 0x84

end Bank

/-- A register of the data mover. -/
structure Register where
  bank : Bank
  channel : Channel
deriving DecidableEq

namespace Register

/-- Where the register is in the data mover's window. -/
def offset (r : Register) : Nat :=
  r.channel.direction.window + r.bank.base + 4 * r.channel.index.val

/-- The register of a bank at an offset into its front-end's registers. -/
def inBank? (d : Direction) (relative : Nat) (bank : Bank) : Option Register :=
  if bank.base ≤ relative then
    if h : (relative - bank.base) / 4 < channelCount then
      some ⟨bank, d, ⟨(relative - bank.base) / 4, h⟩⟩
    else none
  else none

/-- The register at an offset. -/
def ofOffset? (o : Nat) : Option Register :=
  let d : Direction := if 0x100 ≤ o then .l2ToL1 else .l1ToL2
  Bank.all.findSome? (inBank? d (o - d.window))

theorem ofOffset?_offset (r : Register) : ofOffset? r.offset = some r := by
  rcases r with ⟨b, d, i⟩
  have key : ∀ i : Fin channelCount, ofOffset? (offset ⟨b, d, i⟩) = some ⟨b, d, i⟩ := by
    cases b <;> cases d <;> decide
  exact key i

end Register
end Dma
end TileEvents
