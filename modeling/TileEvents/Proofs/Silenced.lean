import TileEvents.Platform.Trace
import TileEvents.Proofs.Operations

/-!
# Leaving records out

Records are for a human reader, and no hardware notices one.  `Program.silenced` is a program
without its records: it runs with the same accesses to the same end (`Platform.run_silenced`).

Most drivers do the same at every verbosity, but for the records (`Driver.Plain`), and all waits
for lines are of this kind.  What such a driver does may be found out where no records are kept, and
is then known at every verbosity (`Driver.Plain.same`).  A driver that looks before it leaves a
record, as the wait for a transfer does, is not of this kind.
-/

set_option autoImplicit false

namespace TileEvents

namespace Program

variable {α β : Type}

/-- The program without its records. -/
def silenced : Program α → Program α
  | done a => done a
  | fault why => fault why
  | exhausted => exhausted
  | step (.report _ _) next => (next ()).silenced
  | step (.read w o) next => step (.read w o) fun r ↦ (next r).silenced
  | step (.write w o value) next => step (.write w o value) fun r ↦ (next r).silenced
  | step (.spin cycles) next => step (.spin cycles) fun r ↦ (next r).silenced
  | step .suspend next => step .suspend fun r ↦ (next r).silenced

theorem silenced_bind (p : Program α) (k : α → Program β) :
    (p.bind k).silenced = p.silenced.bind fun a ↦ (k a).silenced := by
  induction p with
  | done a => rfl
  | fault why => rfl
  | exhausted => rfl
  | step action next ih =>
    cases action with
    | report s text => exact ih ()
    | _ => exact congrArg (step _) (funext ih)

end Program

/-- What was done in a run, without the records. -/
def Run.accesses {σ α : Type} (r : Run σ α) : List Event :=
  r.events.filter fun e ↦ e.record?.isNone

/-- The runs differ in nothing but their records. -/
def Run.Same {σ α : Type} (r r' : Run σ α) : Prop :=
  r.accesses = r'.accesses ∧ r.outcome = r'.outcome

theorem Run.Same.symm {σ α : Type} {r r' : Run σ α} (h : r.Same r') : r'.Same r :=
  ⟨h.1.symm, h.2.symm⟩

theorem Run.Same.trans {σ α : Type} {r r' r'' : Run σ α} (h : r.Same r') (h' : r'.Same r'') :
    r.Same r'' :=
  ⟨h.1.trans h'.1, h.2.trans h'.2⟩

/-- **A program without its records makes the same accesses and comes to the same end.** -/
theorem Platform.run_silenced {σ α : Type} (hardware : Platform σ) (p : Program α) (s : σ) :
    hardware.run p.silenced s =
      ⟨(hardware.run p s).accesses, (hardware.run p s).outcome⟩ := by
  induction p generalizing s with
  | done a => rfl
  | fault why => rfl
  | exhausted => rfl
  | step action next ih =>
    rw [run_step]
    cases action with
    | report severity text => exact ih () s
    | _ =>
      rw [Program.silenced, run_step]
      cases hardware.answer _ s with
      | error f => rfl
      | ok r =>
        dsimp only
        rw [ih]
        rfl

namespace Driver

variable {α β σ : Type}

/-- Where no records are kept, the driver does nothing. -/
def Silent (x : Driver Unit) : Prop := ∀ n, x.program none n = .done ((), n)

theorem silent_report (s : Severity) (text : Unit → String) : Silent (report s text) :=
  fun _ ↦ rfl

theorem Silent.bind_program {x : Driver Unit} (h : Silent x) (f : Unit → Driver α) (n : Nat) :
    (x >>= f).program none n = (f ()).program none n := by
  rw [Driver.bind_program, h]
  rfl

/-- Verbosity adds records to the driver and changes nothing else. -/
def Plain (x : Driver α) : Prop := ∀ v n, (x.program v n).silenced = x.program none n

theorem plain_pure (a : α) : Plain (pure a : Driver α) := fun _ _ ↦ rfl

theorem plain_read (w : Window) (offset : Nat) : Plain (read w offset) := fun _ _ ↦ rfl

theorem plain_write (w : Window) (offset : Nat) (value : UInt32) : Plain (write w offset value) :=
  fun _ _ ↦ rfl

theorem plain_spin (cycles : UInt32) : Plain (spin cycles) := by
  intro v n
  cases n <;> rfl

theorem plain_suspend : Plain suspend := by
  intro v n
  cases n <;> rfl

theorem plain_fault (why : Fault) : Plain (fault why : Driver α) := fun _ _ ↦ rfl

theorem plain_report (s : Severity) (text : Unit → String) : Plain (report s text) := by
  intro v n
  unfold program report
  split <;> rfl

theorem Plain.bind {x : Driver α} {f : α → Driver β} (hx : Plain x) (hf : ∀ a, Plain (f a)) :
    Plain (x >>= f) := by
  intro v n
  rw [bind_program, bind_program, Program.silenced_bind, hx]
  exact congrArg _ (funext fun r ↦ hf r.1 v r.2)

theorem plain_loop {μ : σ → Nat} {body : σ → Driver (Turn σ α)} (h : ∀ s, Plain (body s)) (s : σ) :
    Plain (loop μ body s) := by
  have key : ∀ (turns : Nat) (s : σ), Plain (iterate body turns s) := by
    intro turns
    induction turns with
    | zero => exact fun _ _ _ ↦ rfl
    | succ turns ih =>
      refine fun s ↦ (h s).bind fun turn ↦ ?_
      cases turn with
      | again s' => exact ih s'
      | stop a => exact plain_pure a
  exact fun v n ↦ key _ s v n

/-- Where no records are kept, a run of a plain driver is its accesses. -/
theorem Plain.run_none {x : Driver α} (h : Plain x) (p : Platform σ) (v : Verbosity) (n : Nat)
    (s : σ) : p.run (x.program none n) s =
      ⟨(p.run (x.program v n) s).accesses, (p.run (x.program v n) s).outcome⟩ := by
  rw [← h v n, Platform.run_silenced]

/-- **At every verbosity a plain driver does what it does where no records are kept.** -/
theorem Plain.same {x : Driver α} (h : Plain x) (p : Platform σ) (v : Verbosity) (n : Nat)
    (s : σ) : (p.run (x.program v n) s).Same (p.run (x.program none n) s) := by
  have hv := h.run_none p v n s
  rw [h.run_none p none n s, Run.mk.injEq] at hv
  exact ⟨hv.1.symm, hv.2.symm⟩

end Driver

/-! ## The waits for lines -/

namespace EventUnit

theorem silent_reportRound (r : Round) : (reportRound r).Silent := by
  intro n
  unfold reportRound
  split <;> rfl

theorem plain_reportRound (r : Round) : (reportRound r).Plain := by
  unfold reportRound
  split
  · exact Driver.plain_pure ()
  · exact Driver.plain_report _ _

theorem plain_readLines (r : Register) : (readLines r).Plain :=
  (Driver.plain_read _ _).bind fun _ ↦ Driver.plain_pure _

theorem plain_take (m : EventMask) : (take m).Plain := by
  refine ((plain_readLines .bufferMasked).bind fun _ ↦ Driver.plain_pure _).bind fun seen ↦ ?_
  split
  · exact Driver.plain_pure seen
  · exact (Driver.plain_write _ _ _).bind fun _ ↦ Driver.plain_pure seen

theorem plain_poll (m : EventMask) (budget : Budget) : (poll m budget).Plain := by
  refine Driver.plain_loop (fun elapsed ↦ (plain_take m).bind fun seen ↦ ?_) 0
  split
  · refine (Driver.plain_spin _).bind fun _ ↦ ?_
    dsimp only
    split
    · exact (Driver.plain_report _ _).bind fun _ ↦ Driver.plain_pure _
    · exact Driver.plain_pure _
  · exact (Driver.plain_report _ _).bind fun _ ↦ Driver.plain_pure _

theorem plain_sleepOnce (m : EventMask) : (sleepOnce m).Plain :=
  Driver.plain_suspend.bind fun _ ↦ (plain_take m).bind fun _ ↦
    (Driver.plain_report _ _).bind fun _ ↦ Driver.plain_pure _

theorem plain_sleepFor (m : EventMask) : (sleepFor m).Plain := by
  refine (plain_take m).bind fun seen ↦ ?_
  split
  · exact plain_sleepOnce m
  · exact Driver.plain_pure seen

theorem plain_suspend (m : EventMask) : (suspend m).Plain := by
  rw [suspend]
  refine (plain_readLines .irqMask).bind fun waking ↦ ?_
  dsimp only
  split
  · exact (Driver.plain_write _ _ _).bind fun _ ↦ plain_sleepFor m
  · exact plain_sleepFor m

theorem plain_wait (m : EventMask) (mode : WaitMode) (budget : Budget) :
    (wait m mode budget).Plain := by
  cases mode with
  | polling => exact plain_poll m budget
  | suspend => exact plain_suspend m

theorem plain_waitAnyOf (m : EventMask) (mode : WaitMode) (budget : Budget) :
    (waitAnyOf m mode budget).Plain := by
  unfold waitAnyOf
  split
  · exact Driver.plain_pure _
  · refine Driver.plain_loop (fun _ ↦ (plain_wait m mode budget).bind fun seen ↦ ?_) ()
    split
    · cases mode with
      | polling => exact (Driver.plain_report _ _).bind fun _ ↦ Driver.plain_pure _
      | suspend => exact Driver.plain_pure _
    · exact Driver.plain_pure _

theorem plain_waitAny (plan : WaitPlan) : (waitAny plan).Plain := plain_waitAnyOf _ _ _

theorem plain_suspendRounds (required : EventMask) : (suspendRounds required).Plain := by
  refine Driver.plain_loop (fun t ↦ ?_) _
  unfold suspendRound
  split
  · exact Driver.plain_pure _
  · exact (plain_suspend _).bind fun _ ↦ (plain_reportRound _).bind fun _ ↦ Driver.plain_pure _

theorem plain_pollRounds (required : EventMask) (plan : WaitPlan) :
    (pollRounds required plan).Plain := by
  refine Driver.plain_loop (fun c ↦ ?_) _
  unfold pollRound
  dsimp only
  split
  · exact Driver.plain_fault _
  · refine (plain_poll _ _).bind fun _ ↦ (plain_reportRound _).bind fun _ ↦ ?_
    split
    · exact Driver.plain_pure _
    · split
      · exact (Driver.plain_report _ _).bind fun _ ↦ Driver.plain_pure _
      · exact Driver.plain_pure _

theorem plain_waitAll (plan : WaitPlan) : (waitAll plan).Plain := by
  cases hrequired : plan.required.isEmpty with
  | true =>
    rw [waitAll_eq_empty hrequired]
    exact Driver.plain_pure _
  | false =>
    cases hmode : plan.mode with
    | suspend =>
      rw [waitAll_eq_asleep hmode hrequired]
      exact (plain_suspendRounds _).bind fun _ ↦ (Driver.plain_write _ _ _).bind fun _ ↦
        (Driver.plain_report _ _).bind fun _ ↦ Driver.plain_pure _
    | polling =>
      rw [waitAll_eq_polling hmode hrequired]
      refine (plain_pollRounds _ _).bind fun a ↦ ?_
      obtain ⟨outcome, t⟩ := a
      cases outcome with
      | ok u => exact (Driver.plain_report _ _).bind fun _ ↦ Driver.plain_pure _
      | error e => exact Driver.plain_pure _

end EventUnit
end TileEvents
