import TileEvents.Device

/-!
# Which devices take part in a wait

A `DeviceSet` is a selection of the four devices.  What a wait does with it is a mask: `doneMask`
holds the done line of each selected device, and nothing else (`mem_doneMask`), `eventMask` all
the lines that are enabled for them.
-/

set_option autoImplicit false

namespace TileEvents

/-- A set of devices. -/
structure DeviceSet where
  accelerator : Bool
  dmaL2ToL1 : Bool
  dmaL1ToL2 : Bool
  barrier : Bool
deriving DecidableEq

namespace DeviceSet

instance : EmptyCollection DeviceSet := ⟨⟨false, false, false, false⟩⟩

instance : Inhabited DeviceSet := ⟨∅⟩

/-- All four devices. -/
def all : DeviceSet := ⟨true, true, true, true⟩

/-- The device is in the set. -/
def contains (s : DeviceSet) : Device → Bool
  | .accelerator => s.accelerator
  | .dma .l2ToL1 => s.dmaL2ToL1
  | .dma .l1ToL2 => s.dmaL1ToL2
  | .barrier => s.barrier

instance : Membership Device DeviceSet := ⟨fun s d ↦ s.contains d = true⟩

instance (d : Device) (s : DeviceSet) : Decidable (d ∈ s) :=
  inferInstanceAs (Decidable (s.contains d = true))

/-- The set with one more device. -/
def insert (s : DeviceSet) : Device → DeviceSet
  | .accelerator => { s with accelerator := true }
  | .dma .l2ToL1 => { s with dmaL2ToL1 := true }
  | .dma .l1ToL2 => { s with dmaL1ToL2 := true }
  | .barrier => { s with barrier := true }

def ofList (ds : List Device) : DeviceSet := ds.foldl insert ∅

def single (d : Device) : DeviceSet := insert ∅ d

def isEmpty (s : DeviceSet) : Bool := s == ∅

/-- The members, in a fixed order. -/
def devices (s : DeviceSet) : List Device := Device.all.filter s.contains

/-- The done lines of the members. -/
def doneMask (s : DeviceSet) : EventMask := .unions (s.devices.map Device.doneMask)

/-- The lines that are enabled for the members. -/
def eventMask (s : DeviceSet) : EventMask := .unions (s.devices.map Device.eventMask)

def describe (s : DeviceSet) : String :=
  Text.record "DeviceSet"
    [("accelerator", Text.truth s.accelerator), ("dma_dir0", Text.truth s.dmaL2ToL1),
     ("dma_dir1", Text.truth s.dmaL1ToL2), ("barrier", Text.truth s.barrier)]

/-! ## Members -/

theorem mem_iff {s : DeviceSet} {d : Device} : d ∈ s ↔ s.contains d = true := Iff.rfl

@[simp] theorem mem_devices {s : DeviceSet} {d : Device} : d ∈ s.devices ↔ d ∈ s := by
  rw [devices, List.mem_filter, mem_iff]
  exact ⟨And.right, fun h ↦ ⟨Device.mem_all d, h⟩⟩

theorem mem_insert {s : DeviceSet} {d e : Device} : d ∈ s.insert e ↔ d = e ∨ d ∈ s := by
  rcases d with _ | ⟨_ | _⟩ | _ <;> rcases e with _ | ⟨_ | _⟩ | _ <;>
    simp [mem_iff, insert, contains]

/-- **A wait for a set of devices is a wait for the done lines of its members.** -/
theorem mem_doneMask {s : DeviceSet} {i : Nat} :
    i ∈ s.doneMask ↔ ∃ d, d ∈ s ∧ i = d.doneLine.position := by
  rw [doneMask, EventMask.mem_unions]
  constructor
  · rintro ⟨m, hm, hi⟩
    obtain ⟨d, hd, rfl⟩ := List.mem_map.1 hm
    exact ⟨d, mem_devices.1 hd, Line.mem_mask.1 hi⟩
  · rintro ⟨d, hd, hi⟩
    exact ⟨d.doneMask, List.mem_map.2 ⟨d, mem_devices.2 hd, rfl⟩, Line.mem_mask.2 hi⟩

/-- Nothing is waited for exactly if no device is selected. -/
theorem doneMask_isEmpty (s : DeviceSet) : s.doneMask.isEmpty = s.isEmpty := by
  have key : ∀ a b c d : Bool, (DeviceSet.mk a b c d).doneMask.isEmpty =
      (DeviceSet.mk a b c d).isEmpty := by decide
  exact key _ _ _ _

theorem doneMask_subset_eventMask (s : DeviceSet) : s.doneMask ⊆ s.eventMask := by
  have key : ∀ a b c d : Bool,
      (DeviceSet.mk a b c d).doneMask ⊆ (DeviceSet.mk a b c d).eventMask := by decide
  exact key _ _ _ _

end DeviceSet
end TileEvents
