import TileEvents.Platform.Trace
import TileEvents.Proofs.Returns

/-!
# Drivers that come to a halt

`Platform.Returns` is about runs that end well, and does not say what happened in them.
`Platform.Halts` is about any end, a fault as well, and counts how often the hart has slept until
then.  A sleep that the hardware breaks off is none: nothing has woken the hart.

There is one rule for each way to put drivers together, as for `Platform.Returns`, and one for each
place where a fault can come from.
-/

set_option autoImplicit false

namespace TileEvents
namespace Platform

variable {σ α β ι : Type} {p : Platform σ} {v : Verbosity} {n n₁ k k' : Nat} {s s₁ s' : σ}
  {why : Fault}

/-- Run in a state and with some calls left, the driver has the hart sleep so many times, and the
run ends so. -/
def Halts (p : Platform σ) (x : Driver α) (v : Verbosity) (n : Nat) (s : σ) (sleeps : Nat)
    (o : Outcome σ (α × Nat)) : Prop :=
  ∃ es, p.run (x.program v n) s = ⟨es, o⟩ ∧ es.countP Event.isSuspend = sleeps

theorem Halts.spec {x : Driver α} {o : Outcome σ (α × Nat)} (h : p.Halts x v n s k o) :
    (p.run (x.program v n) s).outcome = o ∧
      (p.run (x.program v n) s).events.countP Event.isSuspend = k := by
  obtain ⟨es, hrun, hcount⟩ := h
  rw [hrun]
  exact ⟨rfl, hcount⟩

theorem halts_pure (a : α) : p.Halts (pure a) v n s 0 (.returned (a, n) s) := ⟨[], rfl, rfl⟩

/-- The sleeps of one driver after the other are those of both. -/
theorem Halts.bind {x : Driver α} {f : α → Driver β} {a : α} {o : Outcome σ (β × Nat)}
    (hx : p.Halts x v n s k (.returned (a, n₁) s₁)) (hf : p.Halts (f a) v n₁ s₁ k' o) :
    p.Halts (x >>= f) v n s (k + k') o := by
  obtain ⟨es, hrun, rfl⟩ := hx
  obtain ⟨es', hrun', rfl⟩ := hf
  refine ⟨es ++ es', ?_, List.countP_append⟩
  rw [Driver.bind_program, run_bind, hrun]
  show Run.after es (p.run ((f a).program v n₁) s₁) = _
  rw [hrun']
  rfl

/-- A driver whose value is only changed. -/
theorem Halts.bind_pure {x : Driver α} {a : α} (f : α → β)
    (hx : p.Halts x v n s k (.returned (a, n₁) s₁)) :
    p.Halts (x >>= fun a ↦ pure (f a)) v n s k (.returned (f a, n₁) s₁) := by
  show p.Halts _ v n s (k + 0) _
  exact hx.bind (halts_pure (f a))

/-- Where a driver breaks off, what comes after it does not happen. -/
theorem Halts.bind_fault {x : Driver α} (f : α → Driver β) (hx : p.Halts x v n s k (.faulted why)) :
    p.Halts (x >>= f) v n s k (.faulted why) := by
  obtain ⟨es, hrun, hcount⟩ := hx
  refine ⟨es, ?_, hcount⟩
  rw [Driver.bind_program, run_bind, hrun]
  rfl

/-! ## Single actions -/

theorem halts_read {w : Window} {o : Nat} {value : UInt32} (h : p.read w o s = .ok (value, s')) :
    p.Halts (Driver.read w o) v n s 0 (.returned (value, n) s') := by
  refine ⟨[.read w o value], ?_, rfl⟩
  rw [Driver.program, Driver.read, run_step, answer, h]
  rfl

theorem halts_write {w : Window} {o : Nat} {value : UInt32} (h : p.write w o value s = .ok s') :
    p.Halts (Driver.write w o value) v n s 0 (.returned ((), n) s') := by
  refine ⟨[.write w o value], ?_, rfl⟩
  rw [Driver.program, Driver.write, run_step, (answer_write_iff (u := ())).2 h]
  rfl

theorem halts_suspend (h : p.suspend s = .ok s') :
    p.Halts Driver.suspend v (n + 1) s 1 (.returned ((), n) s') := by
  refine ⟨[.suspend], ?_, rfl⟩
  rw [Driver.program, Driver.suspend, run_step, (answer_suspend_iff (u := ())).2 h]
  rfl

theorem halts_suspend_fault (h : p.suspend s = .error why) :
    p.Halts Driver.suspend v (n + 1) s 0 (.faulted why) := by
  refine ⟨[], ?_, rfl⟩
  rw [Driver.program, Driver.suspend, run_step, answer, h]
  rfl

theorem halts_report (severity : Severity) (text : Unit → String) :
    p.Halts (Driver.report severity text) v n s 0 (.returned ((), n) s) := by
  by_cases hadmits : v.admits severity = true
  · refine ⟨[.report severity (text ())], ?_, rfl⟩
    rw [Driver.program, Driver.report, if_pos hadmits, run_step]
    rfl
  · refine ⟨[], ?_, rfl⟩
    rw [Driver.program, Driver.report, if_neg hadmits]
    rfl

/-! ## Loops -/

section Loops

variable {μ : ι → Nat} {body : ι → Driver (Driver.Turn ι α)} {i i' : ι} {a : α}
  {o : Outcome σ (α × Nat)}

theorem Halts.loop_again (h : Driver.Descends μ body)
    (hturn : p.Halts (body i) v n s k (.returned (.again i', n₁) s₁))
    (hrest : p.Halts (Driver.loop μ body i') v n₁ s₁ k' o) :
    p.Halts (Driver.loop μ body i) v n s (k + k') o := by
  rw [Driver.loop_eq h]
  exact hturn.bind hrest

theorem Halts.loop_stop (h : Driver.Descends μ body)
    (hturn : p.Halts (body i) v n s k (.returned (.stop a, n₁) s₁)) :
    p.Halts (Driver.loop μ body i) v n s k (.returned (a, n₁) s₁) := by
  rw [Driver.loop_eq h]
  show p.Halts _ v n s (k + 0) _
  exact hturn.bind (halts_pure a)

theorem Halts.loop_fault (h : Driver.Descends μ body)
    (hturn : p.Halts (body i) v n s k (.faulted why)) :
    p.Halts (Driver.loop μ body i) v n s k (.faulted why) := by
  rw [Driver.loop_eq h]
  exact hturn.bind_fault _

end Loops
end Platform
end TileEvents
