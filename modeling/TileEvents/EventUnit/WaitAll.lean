import TileEvents.EventUnit.WaitAny

/-!
# Waiting for all of several devices

The devices of a session finish in any order, some of them perhaps before the wait begins.
`waitAll` keeps a `Tally` of what it has taken and in every round asks only for the lines that are
still missing, so a line that was seen once is not asked for again.

Asleep, it goes on until nothing is missing.  Polling, each round is one slice of the plan, charged
in full to the plan's budget even if it ends early, and the last slice is cut to what is left of
it.  When the budget runs out the lines that did arrive are gone and are not reported.

`waitAllRounds` is the same wait with its rounds beside the answer.
-/

set_option autoImplicit false

namespace TileEvents
namespace EventUnit

/-- One round: what was asked for, for how long, and what of it was taken. -/
structure Round where
  requested : EventMask
  /-- The budget of the round, if it polled. -/
  limit : Option Budget
  seen : EventMask
deriving DecidableEq

/-- The lines that a round left missing. -/
def Round.missing (r : Round) : EventMask := r.requested \ r.seen

/-- The rounds of a wait so far, the last one first, and everything they took. -/
structure Tally where
  rounds : List Round
  total : EventMask
deriving DecidableEq

namespace Tally

/-- No round yet. -/
def empty : Tally := ⟨[], ∅⟩

/-- One more round. -/
def add (t : Tally) (r : Round) : Tally := ⟨r :: t.rounds, t.total ∪ r.seen⟩

/-- The lines of `required` that were not taken yet. -/
def missing (t : Tally) (required : EventMask) : EventMask := required \ t.total

theorem missing_add (t : Tally) (r : Round) (required : EventMask) :
    (t.add r).missing required = t.missing required \ r.seen :=
  EventMask.sdiff_union required t.total r.seen

end Tally

/-- Leaves a record of a round that brought something. -/
def reportRound (r : Round) : Driver Unit :=
  if r.seen.isEmpty then
    return ()
  else
    Driver.report .trace fun _ ↦
      s!"wait_all: got {r.seen.describe}, still missing {r.missing.describe}"

/-! ## Asleep -/

/-- One round of a wait that sleeps. -/
def suspendRound (required : EventMask) (t : Tally) : Driver (Driver.Turn Tally Tally) := do
  if required ⊆ t.total then
    return .stop t
  else
    let requested := t.missing required
    let seen ← suspend requested
    let round := ⟨requested, none, seen⟩
    reportRound round
    return .again (t.add round)

/-- Sleeps until all of `required` was taken. -/
def suspendRounds (required : EventMask) : Driver Tally :=
  Driver.loop (fun t ↦ (t.missing required).size) (suspendRound required) .empty

/-! ## Polling -/

/-- The rounds of a polling wait so far, and how much of its budget they were charged. -/
structure Charged where
  tally : Tally
  elapsed : UInt32

/-- One round of a wait that polls. -/
def pollRound (required : EventMask) (plan : WaitPlan) (c : Charged) :
    Driver (Driver.Turn Charged (Except WaitError Unit × Tally)) := do
  let requested := c.tally.missing required
  match plan.budget.round? plan.slice c.elapsed with
  | none => Driver.fault .subtractionOverflow
  | some limit =>
    let seen ← poll requested limit
    let round := ⟨requested, some limit, seen⟩
    reportRound round
    let tally := c.tally.add round
    let elapsed := addSaturating c.elapsed plan.slice.rounds
    if required ⊆ tally.total then
      return .stop (.ok (), tally)
    else if plan.budget.isExhausted elapsed then
      let outstanding := tally.missing required
      Driver.report .warn fun _ ↦
        s!"wait_all {required.describe}: timed out with {outstanding.describe} outstanding"
      return .stop (.error .timeout, tally)
    else
      return .again ⟨tally, elapsed⟩

/-- Polls until all of `required` was taken or the plan's budget runs out. -/
def pollRounds (required : EventMask) (plan : WaitPlan) : Driver (Except WaitError Unit × Tally) :=
  Driver.loop (fun c ↦ (c.tally.missing required).size) (pollRound required plan) ⟨.empty, 0⟩

/-! ## Either way -/

/-- Waits until all selected devices are done.  Beside the answer: the rounds it took, in order. -/
def waitAllRounds (plan : WaitPlan) : Driver (Except WaitError EventMask × List Round) := do
  let required := plan.required
  if required.isEmpty then
    return (.error .emptyMask, [])
  else
    let (outcome, tally) ← match plan.mode with
      | .suspend => do
        let tally ← suspendRounds required
        -- a line may have come up again since it was taken
        clear tally.total
        pure (.ok (), tally)
      | .polling => pollRounds required plan
    match outcome with
    | .ok () =>
      Driver.report .debug fun _ ↦ s!"wait_all: {tally.total.describe} complete"
      return (.ok tally.total, tally.rounds.reverse)
    | .error e => return (.error e, tally.rounds.reverse)

/-- Waits until all selected devices are done, and returns their done lines. -/
def waitAll (plan : WaitPlan) : Driver (Except WaitError EventMask) := do
  return (← waitAllRounds plan).1

/-! ## The loops are bounded by the calls of the hart and the missing lines -/

theorem ends_reportRound (r : Round) : (reportRound r).Ends fun n _ n' ↦ n' = n := by
  unfold reportRound
  split
  · exact Driver.ends_pure fun _ ↦ rfl
  · exact Driver.ends_report _ _

theorem descends_suspendRound (required : EventMask) :
    Driver.Descends (fun t : Tally ↦ (t.missing required).size) (suspendRound required) := by
  intro t v n
  unfold suspendRound
  split
  · exact fun s' hs' ↦ nomatch hs'
  · rw [Driver.ends_bind_program]
    refine (ends_suspend _ v n).mono fun r hr ↦ ?_
    rw [Driver.ends_bind_program]
    refine (ends_reportRound _ v r.2).mono fun u hu ↦ ?_
    rintro s' ⟨⟩
    show u.2 + ((Tally.add _ _).missing required).size < _
    rw [hu, Tally.missing_add]
    exact hr.descends

theorem descends_pollRound (required : EventMask) (plan : WaitPlan) :
    Driver.Descends (fun c : Charged ↦ (c.tally.missing required).size)
      (pollRound required plan) := by
  intro c v n
  unfold pollRound
  dsimp only
  split
  · trivial
  · rw [Driver.ends_bind_program]
    refine (ends_poll _ _ v n).mono fun r hr ↦ ?_
    rw [Driver.ends_bind_program]
    refine (ends_reportRound _ v r.2).mono fun u hu ↦ ?_
    split
    · exact fun s' hs' ↦ nomatch hs'
    · split
      · rw [Driver.ends_bind_program]
        exact (Driver.ends_report _ _ v u.2).mono fun w _ s' hs' ↦ nomatch hs'
      · rintro s' ⟨⟩
        show u.2 + ((Tally.add _ _).missing required).size < _
        rw [hu, Tally.missing_add]
        exact hr.descends

end EventUnit
end TileEvents
