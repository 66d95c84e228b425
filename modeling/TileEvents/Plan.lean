import TileEvents.Budget
import TileEvents.Device.Selection

/-!
# Plans

A `WaitPlan` is everything one wait for several devices needs to know: which devices, how to
block, and for how long when it polls.

Plans are put together by a `PlanBuilder`, which starts with defaults for all but the mode.  The
parameter of the builder is what is known of the mode, `Unit` before it is chosen and `WaitMode`
after: it can be chosen once, and there is a plan only after that.  The other settings can be made
at any time and in any order; a later one replaces an earlier one.

A slice without a bound would never hand control back, so the builder stores one round in place of
none.  Hence no plan it builds has an unbounded slice, whatever settings were made in whatever
order (`ofSettings_slice`).
-/

set_option autoImplicit false

namespace TileEvents

/-- How a wait blocks. -/
inductive WaitMode
  /-- Look at the event buffer again and again, with a fixed delay in between. -/
  | polling
  /-- Sleep until an event wakes the hart. -/
  | suspend
deriving DecidableEq

def WaitMode.name : WaitMode → String
  | polling => "Polling"
  | suspend => "Suspend"

/-- Polling, unless told otherwise. -/
instance : Inhabited WaitMode := ⟨.polling⟩

/-- What one wait for several devices needs to know. -/
structure WaitPlan where
  devices : DeviceSet
  mode : WaitMode
  /-- How long a polling wait may take. -/
  budget : Budget
  /-- How long a polling wait for all devices looks before it takes stock. -/
  slice : Budget
deriving DecidableEq

/-- The lines that a wait with this plan is for. -/
def WaitPlan.required (p : WaitPlan) : EventMask := p.devices.doneMask

def WaitPlan.describe (p : WaitPlan) : String :=
  Text.record "WaitPlan"
    [("devices", p.devices.describe), ("mode", p.mode.name), ("budget", p.budget.describe),
     ("slice", p.slice.describe)]

/-- A plan in the making, of whose mode `μ` is known. -/
structure PlanBuilder (μ : Type) where
  devices : DeviceSet
  mode : μ
  budget : Budget
  slice : Budget

/-- A setting that can be made at any time. -/
inductive PlanSetting
  /-- Select one more device. -/
  | device (d : Device)
  /-- Select these devices and no others. -/
  | devices (s : DeviceSet)
  | budget (b : Budget)
  | slice (b : Budget)
deriving DecidableEq

namespace PlanBuilder

/-- The defaults: no device, and the default budgets. -/
def start : PlanBuilder Unit := ⟨∅, (), .default, .defaultSlice⟩

section Settings

variable {μ : Type}

/-- Selects one more device. -/
def addDevice (b : PlanBuilder μ) (d : Device) : PlanBuilder μ :=
  { b with devices := b.devices.insert d }

/-- Replaces the selection. -/
def setDevices (b : PlanBuilder μ) (s : DeviceSet) : PlanBuilder μ := { b with devices := s }

def setBudget (b : PlanBuilder μ) (budget : Budget) : PlanBuilder μ := { b with budget := budget }

/-- Sets the slice; one round if it has no bound. -/
def setSlice (b : PlanBuilder μ) (slice : Budget) : PlanBuilder μ :=
  { b with slice := if slice.isUnbounded then ⟨1⟩ else slice }

def apply (b : PlanBuilder μ) : PlanSetting → PlanBuilder μ
  | .device d => b.addDevice d
  | .devices s => b.setDevices s
  | .budget budget => b.setBudget budget
  | .slice slice => b.setSlice slice

/-- Makes settings one after the other. -/
def applyAll (b : PlanBuilder μ) (settings : List PlanSetting) : PlanBuilder μ :=
  settings.foldl apply b

end Settings

/-- Chooses the mode. -/
def setMode (b : PlanBuilder Unit) (mode : WaitMode) : PlanBuilder WaitMode :=
  { b with mode := mode }

/-- The plan, once the mode is chosen. -/
def build (b : PlanBuilder WaitMode) : WaitPlan := ⟨b.devices, b.mode, b.budget, b.slice⟩

/-! ## No slice without a bound -/

section Settings

variable {μ : Type}

theorem apply_slice {b : PlanBuilder μ} (h : b.slice.isUnbounded = false) (s : PlanSetting) :
    (b.apply s).slice.isUnbounded = false := by
  cases s with
  | device d => exact h
  | devices s => exact h
  | budget budget => exact h
  | slice slice =>
    rw [apply, setSlice]
    split
    · rfl
    · next hs => simpa using hs

theorem applyAll_slice {b : PlanBuilder μ} (h : b.slice.isUnbounded = false)
    (ss : List PlanSetting) : (b.applyAll ss).slice.isUnbounded = false := by
  induction ss generalizing b with
  | nil => exact h
  | cons s ss ih => exact ih (apply_slice h s)

/-- The mode is chosen once. -/
theorem applyAll_mode (b : PlanBuilder μ) (ss : List PlanSetting) :
    (b.applyAll ss).mode = b.mode := by
  induction ss generalizing b with
  | nil => rfl
  | cons s ss ih =>
    refine (ih (b.apply s)).trans ?_
    cases s <;> rfl

end Settings
end PlanBuilder

/-- The plan of a session with the builder: some settings, the choice of the mode, more settings. -/
def WaitPlan.ofSettings (before : List PlanSetting) (mode : WaitMode) (after : List PlanSetting) :
    WaitPlan :=
  (((PlanBuilder.start.applyAll before).setMode mode).applyAll after).build

/-- Nothing is waited for exactly if the plan selects no device. -/
theorem WaitPlan.required_isEmpty_iff {p : WaitPlan} :
    p.required.isEmpty = true ↔ p.devices = ∅ := by
  rw [required, DeviceSet.doneMask_isEmpty, DeviceSet.isEmpty, beq_iff_eq]

theorem WaitPlan.ofSettings_mode (before : List PlanSetting) (mode : WaitMode)
    (after : List PlanSetting) : (ofSettings before mode after).mode = mode :=
  PlanBuilder.applyAll_mode ((PlanBuilder.start.applyAll before).setMode mode) after

/-- **No plan has a slice without a bound.** -/
theorem WaitPlan.ofSettings_slice (before : List PlanSetting) (mode : WaitMode)
    (after : List PlanSetting) : (ofSettings before mode after).slice.isUnbounded = false :=
  PlanBuilder.applyAll_slice
    (b := (PlanBuilder.start.applyAll before).setMode mode)
    (PlanBuilder.applyAll_slice (b := PlanBuilder.start) rfl before) after

end TileEvents
