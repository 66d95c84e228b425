import TileEvents.Budget
import TileEvents.Dma.Register
import TileEvents.Program.Driver

/-!
# Following transfers

A channel of the data mover shows only the number of the transfer that retired last.  A wait for a
transfer looks for exactly its number, so it must come before a later transfer of the same channel
retires; one that comes later finds another number and never ends well.

There are two kinds of wait.  `waitFor` is for a transfer of a given channel and looks every
`pollQuantum` cycles.  `waitRetired` and `barrier` look at the first channels of both front-ends in
every cycle.
-/

set_option autoImplicit false

namespace TileEvents
namespace Dma

def readRegister (bank : Bank) (c : Channel) : Driver UInt32 :=
  Driver.read .dma (Register.offset ⟨bank, c⟩)

/-- The part of a status word that says whether the channel is busy. -/
def busyBits : UInt32 := 0x3FF

def isBusy (c : Channel) : Driver Bool := do return (← readRegister .status c) &&& busyBits != 0

/-- The transfer that retired last on a channel. -/
def lastDone (c : Channel) : Driver TransferId := do return ⟨← readRegister .doneId c⟩

/-- Starts the transfer that is set up on a channel. -/
def launch (c : Channel) : Driver TransferId := do
  let number ← readRegister .nextId c
  Driver.report .trace fun _ ↦ s!"dma {c.describe}: launched {number.toNat}"
  return ⟨number⟩

/-! ## Waiting for a transfer of a channel -/

/-- The channel has nothing in flight, and `id` is what retired last. -/
def isSettled (c : Channel) (id : TransferId) : Driver Bool := do
  if ← isBusy c then
    return false
  else
    return (← lastDone c) == id

/-- One look of `waitFor`, after `elapsed` looks in vain. -/
def waitForTurn (c : Channel) (id : TransferId) (budget : Budget) (elapsed : UInt32) :
    Driver (Driver.Turn UInt32 (Except WaitError Unit)) := do
  if ← isSettled c id then
    Driver.report .trace fun _ ↦
      s!"dma {c.describe}: {id.number.toNat} retired after {elapsed.toNat} iterations"
    return .stop (.ok ())
  else
    Driver.spin pollQuantum
    let spent := addSaturating elapsed 1
    if budget.isExhausted spent then
      -- the number shown is read only if it will be shown
      if ← Driver.reports .warn then
        let last ← lastDone c
        Driver.report .warn fun _ ↦
          s!"dma {c.describe}: timed out waiting for {id.number.toNat} " ++
            s!"(last done {last.number.toNat})"
      return .stop (.error .timeout)
    else
      return .again spent

/-- Waits until a channel is idle and `id` is what retired last on it. -/
def waitFor (c : Channel) (id : TransferId) (budget : Budget) : Driver (Except WaitError Unit) :=
  if id.isValid then
    Driver.loop (fun _ ↦ 0) (waitForTurn c id budget) 0
  else
    return .error .invalidTransfer

/-! ## Waiting for either front-end -/

/-- `id` is what retired last on the first channel of a front-end. -/
def isRetired (id : TransferId) : Driver Bool :=
  Direction.both.anyM fun d ↦ do return (← lastDone (.first d)) == id

/-- The first channel of a front-end is busy. -/
def anyBusy : Driver Bool := Direction.both.anyM fun d ↦ isBusy (.first d)

/-- One look at a condition, after `elapsed` looks in vain. -/
def spinTurn (holds : Driver Bool) (budget : Budget) (elapsed : UInt32) :
    Driver (Driver.Turn UInt32 (Except WaitError Unit)) := do
  if ← holds then
    return .stop (.ok ())
  else
    Driver.spin 1
    let spent := addSaturating elapsed 1
    if budget.isExhausted spent then
      return .stop (.error .timeout)
    else
      return .again spent

/-- Looks in every cycle until a condition holds. -/
def spinUntil (holds : Driver Bool) (budget : Budget) : Driver (Except WaitError Unit) :=
  Driver.loop (fun _ ↦ 0) (spinTurn holds budget) 0

/-- Leaves a record if a wait has failed. -/
def warnIfFailed (text : Unit → String) : Except WaitError Unit → Driver (Except WaitError Unit)
  | .ok () => return .ok ()
  | .error e => do
    Driver.report .warn text
    return .error e

/-- Waits until `id` is what retired last on the first channel of a front-end. -/
def waitRetired (id : TransferId) (budget : Budget) : Driver (Except WaitError Unit) :=
  if id.isValid then do
    let outcome ← spinUntil (isRetired id) budget
    warnIfFailed (fun _ ↦ s!"dma: timed out waiting for {id.number.toNat} to retire") outcome
  else
    return .error .invalidTransfer

/-- Waits until neither first channel is busy. -/
def barrier (budget : Budget) : Driver (Except WaitError Unit) := do
  let outcome ← spinUntil (do return !(← anyBusy)) budget
  warnIfFailed (fun _ ↦ "dma: barrier timed out") outcome

/-! ## The loops are bounded by the calls of the hart -/

/-- The driver only looks: it calls the hart never. -/
def OnlyLooks {α : Type} (x : Driver α) : Prop := x.Ends fun n _ n' ↦ n' = n

theorem onlyLooks_isBusy (c : Channel) : OnlyLooks (isBusy c) := fun _ _ _ ↦ rfl

theorem onlyLooks_lastDone (c : Channel) : OnlyLooks (lastDone c) := fun _ _ _ ↦ rfl

theorem onlyLooks_isSettled (c : Channel) (id : TransferId) : OnlyLooks (isSettled c id) := by
  intro v n
  rw [isSettled, Driver.ends_bind_program]
  refine (onlyLooks_isBusy c v n).mono fun r hr ↦ ?_
  split
  · exact hr
  · rw [Driver.ends_bind_program]
    exact (onlyLooks_lastDone c v r.2).mono fun t ht ↦ ht.trans hr

theorem onlyLooks_anyM {α : Type} {p : α → Driver Bool} (h : ∀ a, OnlyLooks (p a)) (l : List α) :
    OnlyLooks (l.anyM p) := by
  induction l with
  | nil => exact Driver.ends_pure fun _ ↦ rfl
  | cons a l ih =>
    intro v n
    rw [List.anyM, Driver.ends_bind_program]
    refine (h a v n).mono fun r hr ↦ ?_
    rcases r with ⟨_ | _, n'⟩
    · exact (ih v n').mono fun t ht ↦ ht.trans hr
    · exact hr

theorem onlyLooks_isRetired (id : TransferId) : OnlyLooks (isRetired id) :=
  onlyLooks_anyM (p := fun d ↦ do return (← lastDone (.first d)) == id) (fun _ _ _ _ ↦ rfl) _

theorem onlyLooks_anyBusy : OnlyLooks anyBusy := onlyLooks_anyM (fun _ ↦ onlyLooks_isBusy _) _

theorem descends_waitForTurn (c : Channel) (id : TransferId) (budget : Budget) :
    Driver.Descends (fun _ ↦ 0) (waitForTurn c id budget) := by
  intro elapsed v n
  rw [waitForTurn, Driver.ends_bind_program]
  refine (onlyLooks_isSettled c id v n).mono fun r hr ↦ ?_
  split
  · rw [Driver.ends_bind_program]
    exact (Driver.ends_report _ _ v r.2).mono fun t _ s' hs' ↦ nomatch hs'
  · rw [Driver.ends_bind_program]
    refine (Driver.ends_spin pollQuantum v r.2).mono fun t ht ↦ ?_
    dsimp only
    split
    · rw [Driver.ends_bind_program]
      refine (Program.ends_true _).mono fun u _ ↦ ?_
      split
      · rw [Driver.ends_bind_program]
        refine (Program.ends_true _).mono fun w _ ↦ ?_
        rw [Driver.ends_bind_program]
        exact (Program.ends_true _).mono fun x _ s' hs' ↦ nomatch hs'
      · exact fun s' hs' ↦ nomatch hs'
    · intro s' _
      show t.2 + 0 < n + 0
      omega

theorem descends_spinTurn {holds : Driver Bool} (h : OnlyLooks holds) (budget : Budget) :
    Driver.Descends (fun _ ↦ 0) (spinTurn holds budget) := by
  intro elapsed v n
  rw [spinTurn, Driver.ends_bind_program]
  refine (h v n).mono fun r hr ↦ ?_
  split
  · exact fun s' hs' ↦ nomatch hs'
  · rw [Driver.ends_bind_program]
    refine (Driver.ends_spin 1 v r.2).mono fun t ht ↦ ?_
    dsimp only
    split
    · exact fun s' hs' ↦ nomatch hs'
    · intro s' _
      show t.2 + 0 < n + 0
      omega

end Dma
end TileEvents
