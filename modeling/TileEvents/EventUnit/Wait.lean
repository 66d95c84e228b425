import TileEvents.EventUnit.Basic
import TileEvents.Mask.Size
import TileEvents.Plan

/-!
# The two ways to block

Every wait for several devices is built from two operations on a mask.  `poll` looks at the event
buffer again and again until it takes something or its budget runs out.  `suspend` looks, sleeps
if there is nothing, and looks once more; what woke the hart may have been another line, so it can
come back with nothing as well.

Both return what they took.  `ends_poll` and `ends_suspend` say what a loop around them can rely
on, whatever the hardware replies: what is taken is within the mask that was asked for, and coming
back with nothing has cost a call of the hart.
-/

set_option autoImplicit false

namespace TileEvents
namespace EventUnit

/-- One look of `poll`, after `elapsed` looks that found nothing. -/
def pollTurn (m : EventMask) (budget : Budget) (elapsed : UInt32) :
    Driver (Driver.Turn UInt32 EventMask) := do
  let seen ← take m
  if seen.isEmpty then
    Driver.spin pollQuantum
    let elapsed := addSaturating elapsed 1
    if budget.isExhausted elapsed then
      Driver.report .trace fun _ ↦
        s!"poll {m.describe}: nothing after {elapsed.toNat} iterations"
      return .stop ∅
    else
      return .again elapsed
  else
    Driver.report .trace fun _ ↦
      s!"poll {m.describe}: {seen.describe} after {elapsed.toNat} iterations"
    return .stop seen

/-- Looks until a line of `m` is taken or the budget runs out; then the result is empty. -/
def poll (m : EventMask) (budget : Budget) : Driver EventMask :=
  Driver.loop (fun _ ↦ 0) (pollTurn m budget) 0

/-- The second half of `suspend`, after a look that found nothing. -/
def sleepOnce (m : EventMask) : Driver EventMask := do
  Driver.suspend
  let seen ← take m
  Driver.report .trace fun _ ↦ s!"suspend {m.describe}: woke with {seen.describe}"
  return seen

/-- What `suspend` does once its lines wake the hart. -/
def sleepFor (m : EventMask) : Driver EventMask := do
  let seen ← take m
  if seen.isEmpty then
    sleepOnce m
  else
    return seen

/-- Looks, sleeps if there is nothing, and looks again.

The lines of `m` are first made to wake the hart, if they do not yet.  The result is empty if
something else woke it. -/
def suspend (m : EventMask) : Driver EventMask := do
  let waking ← irqEnabled
  if ¬ m ⊆ waking then
    enableIrq m
  sleepFor m

/-- Polls or suspends.  Only polling has a budget. -/
def wait (m : EventMask) (mode : WaitMode) (budget : Budget) : Driver EventMask :=
  match mode with
  | .polling => poll m budget
  | .suspend => suspend m

/-! ## What a loop around them can rely on -/

/-- What is taken is within the mask; taking nothing costs a call. -/
def Progress (m : EventMask) (n : Nat) (seen : EventMask) (n' : Nat) : Prop :=
  seen ⊆ m ∧ n' ≤ n ∧ (seen.isEmpty = true → n' < n)

theorem Progress.of_lt {m seen : EventMask} {n n' n'' : Nat} (h : n' < n)
    (hp : Progress m n' seen n'') : Progress m n seen n'' :=
  ⟨hp.1, by have := hp.2.1; omega, fun _ ↦ by have := hp.2.1; omega⟩

/-- **A loop that asks for what is still missing descends**: either lines arrived or the hart was
called. -/
theorem Progress.descends {m seen : EventMask} {n n' : Nat} (h : Progress m n seen n') :
    n' + (m \ seen).size < n + m.size := by
  obtain ⟨hm, hn, he⟩ := h
  by_cases hs : seen.isEmpty = true
  · have hlt := he hs
    have hle := EventMask.size_le_size (EventMask.sdiff_subset m seen)
    omega
  · have hlt := EventMask.size_sdiff_lt hm (Bool.eq_false_iff.2 hs)
    omega

theorem ends_pollTurn (m : EventMask) (budget : Budget) (elapsed : UInt32) :
    (pollTurn m budget elapsed).Ends fun n turn n' ↦
      match turn with
      | .again _ => n' < n
      | .stop seen => Progress m n seen n' := by
  intro v n
  rw [pollTurn, Driver.ends_bind_program]
  refine (ends_take m v n).mono fun r hr ↦ ?_
  obtain ⟨rfl, hm⟩ := hr
  by_cases hs : r.1.isEmpty = true
  · rw [if_pos hs, Driver.ends_bind_program]
    refine (Driver.ends_spin pollQuantum v r.2).mono fun t ht ↦ ?_
    dsimp only
    split
    · rw [Driver.ends_bind_program]
      refine (Driver.ends_report _ _ v t.2).mono fun u hu ↦ ?_
      exact ⟨EventMask.subset_iff.2 fun i hi ↦ absurd hi (EventMask.not_mem_empty i), by omega,
        fun _ ↦ by omega⟩
    · show t.2 < r.2
      omega
  · rw [if_neg hs, Driver.ends_bind_program]
    refine (Driver.ends_report _ _ v r.2).mono fun u hu ↦ ?_
    exact ⟨hm, by omega, fun h ↦ absurd h hs⟩

theorem descends_pollTurn (m : EventMask) (budget : Budget) :
    Driver.Descends (fun _ ↦ 0) (pollTurn m budget) :=
  fun elapsed ↦ (ends_pollTurn m budget elapsed).mono fun n turn n' h s' hs ↦ by
    subst hs
    exact h

theorem ends_poll (m : EventMask) (budget : Budget) : (poll m budget).Ends (Progress m) := by
  refine Driver.ends_loop (P := fun _ ↦ Progress m) (fun elapsed ↦ ?_) 0
  refine (ends_pollTurn m budget elapsed).mono fun n turn n' h ↦ ?_
  rcases turn with s' | seen
  · exact fun a n'' hp ↦ hp.of_lt h
  · exact h

/-- A sleep is a call, whatever is found after it. -/
theorem ends_sleepOnce (m : EventMask) :
    (sleepOnce m).Ends fun n seen n' ↦ seen ⊆ m ∧ n' < n := by
  intro v n
  rw [sleepOnce, Driver.ends_bind_program]
  refine (Driver.ends_suspend v n).mono fun t ht ↦ ?_
  rw [Driver.ends_bind_program]
  refine (ends_take m v t.2).mono fun u hu ↦ ?_
  rw [Driver.ends_bind_program]
  refine (Driver.ends_report _ _ v u.2).mono fun w hw ↦ ?_
  exact ⟨hu.2, by omega⟩

theorem ends_sleepFor (m : EventMask) : (sleepFor m).Ends (Progress m) := by
  intro v n
  rw [sleepFor, Driver.ends_bind_program]
  refine (ends_take m v n).mono fun r hr ↦ ?_
  obtain ⟨rfl, hm⟩ := hr
  split
  · refine (ends_sleepOnce m v r.2).mono fun w hw ↦ ?_
    exact ⟨hw.1, Nat.le_of_lt hw.2, fun _ ↦ hw.2⟩
  · next hs => exact ⟨hm, Nat.le_refl _, fun h ↦ absurd h hs⟩

theorem ends_suspend (m : EventMask) : (suspend m).Ends (Progress m) := by
  intro v n
  rw [suspend, Driver.ends_bind_program]
  refine (ends_readLines .irqMask v n).mono fun r hr ↦ ?_
  split
  · rw [Driver.ends_bind_program]
    refine (ends_enableIrq m v r.2).mono fun t ht ↦ ?_
    rw [← hr, ← ht]
    exact ends_sleepFor m v t.2
  · rw [← hr]
    exact ends_sleepFor m v r.2

theorem ends_wait (m : EventMask) (mode : WaitMode) (budget : Budget) :
    (wait m mode budget).Ends (Progress m) := by
  cases mode
  · exact ends_poll m budget
  · exact ends_suspend m

end EventUnit
end TileEvents
