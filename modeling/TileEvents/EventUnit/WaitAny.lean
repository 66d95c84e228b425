import TileEvents.EventUnit.Wait

/-!
# Waiting for one of several devices

A session arms the event unit with a plan, starts the devices and then waits with the same plan.
`arm` takes everything down, so that nothing from before can end the wait; hence it must come
before the devices are started.

`waitAnyOf` blocks until it takes something.  Its loop only goes round when the hart was woken by
some other line: a polling wait that comes back with nothing has run out of its budget, and that
is an error.
-/

set_option autoImplicit false

namespace TileEvents
namespace EventUnit

/-- Starts a session: takes every line down and has the lines of the selected devices reported.
If the plan is to sleep, their done lines wake the hart. -/
def arm (plan : WaitPlan) : Driver Unit := do
  clear .all
  enable plan.devices.eventMask
  if plan.mode = .suspend then
    enableIrq plan.required
  Driver.report .debug fun _ ↦
    s!"armed {plan.devices.describe} in {plan.mode.name} mode, " ++
      s!"lines {plan.devices.eventMask.describe}"

/-- Blocks once, and decides whether that ends the wait. -/
def waitAnyTurn (m : EventMask) (mode : WaitMode) (budget : Budget) :
    Driver (Driver.Turn Unit (Except WaitError EventMask)) := do
  let seen ← wait m mode budget
  if seen.isEmpty then
    match mode with
    | .polling =>
      Driver.report .warn fun _ ↦
        s!"wait_any {m.describe}: timed out after {budget.rounds.toNat} iterations"
      return .stop (.error .timeout)
    | .suspend => return .again ()
  else
    return .stop (.ok seen)

/-- Blocks again and again, until that ends the wait. -/
abbrev waitAnyLoop (m : EventMask) (mode : WaitMode) (budget : Budget) :
    Driver (Except WaitError EventMask) :=
  Driver.loop (fun _ ↦ 0) (fun _ : Unit ↦ waitAnyTurn m mode budget) ()

/-- Blocks until a line of `m` is taken. -/
def waitAnyOf (m : EventMask) (mode : WaitMode) (budget : Budget) :
    Driver (Except WaitError EventMask) :=
  if m.isEmpty then
    return .error .emptyMask
  else
    waitAnyLoop m mode budget

/-- Waits until one of the selected devices is done, and returns the done lines that were up
together. -/
def waitAny (plan : WaitPlan) : Driver (Except WaitError EventMask) :=
  waitAnyOf plan.required plan.mode plan.budget

theorem waitAnyOf_eq {m : EventMask} (mode : WaitMode) (budget : Budget)
    (hm : m.isEmpty = false) : waitAnyOf m mode budget = waitAnyLoop m mode budget :=
  if_neg (Bool.eq_false_iff.1 hm)

/-! ## The loop is bounded by the calls of the hart -/

theorem descends_waitAnyTurn (m : EventMask) (mode : WaitMode) (budget : Budget) :
    Driver.Descends (fun _ ↦ 0) (fun _ : Unit ↦ waitAnyTurn m mode budget) := by
  intro _ v n
  unfold waitAnyTurn
  rw [Driver.ends_bind_program]
  refine (ends_wait m mode budget v n).mono fun r hr ↦ ?_
  split
  · next hs =>
    cases mode with
    | polling =>
      rw [Driver.ends_bind_program]
      exact (Driver.ends_report _ _ v r.2).mono fun u _ s' hs' ↦ nomatch hs'
    | suspend => exact fun _ _ ↦ hr.2.2 hs
  · exact fun s' hs' ↦ nomatch hs'

end EventUnit
end TileEvents
