import TileEvents.Command
import TileEvents.Proofs.Consumption
import TileEvents.Proofs.Since

/-!
# What nearly every command does

Four commands do more to a tile than use it up: three take lines out of the masks, by disabling them
or resetting everything (`Command.Narrows`), and one starts a transfer (`Command.Launches`).  The
events of all others are mild (`Command.mild`): they read what can be read without a trace, write to
registers that take nothing out of the masks, and call the hart.

`Driver.Mild` says so of a driver, whatever the hardware replies.  There is one rule for each way to
put drivers together, and what the waits for lines do is known already.
-/

set_option autoImplicit false

namespace TileEvents

open EventUnit (Register)

namespace Event

/-- Neither are lines taken out of the masks nor is a transfer started. -/
inductive Mild : Event → Prop
  | readUnit (o : Nat) (value : UInt32) : Mild (.read .eventUnit o value)
  | readDma {bank : Dma.Bank} (h : bank ≠ .nextId) (c : Channel) (value : UInt32) :
    Mild (.read .dma (Dma.Register.offset ⟨bank, c⟩) value)
  | write {r : Register} (h : r.narrows = false) (value : UInt32) :
    Mild (.write .eventUnit r.offset value)
  | spin (cycles : UInt32) : Mild (.spin cycles)
  | suspend : Mild .suspend
  | report (s : Severity) (text : String) : Mild (.report s text)

theorem not_narrows_write {r : Register} (h : r.narrows = false) (value : UInt32) :
    ¬ (write .eventUnit r.offset value).Narrows := by
  rintro ⟨r', hr', htrue⟩
  rw [Register.ofOffset?_offset] at hr'
  obtain rfl := Option.some.inj hr'
  rw [h] at htrue
  exact nomatch htrue

namespace Mild

variable {e : Event}

theorem not_narrows (h : e.Mild) : ¬ e.Narrows := by
  cases h with
  | write h value => exact not_narrows_write h value
  | readUnit | readDma | spin | suspend | report => exact id

theorem launched?_eq_none (h : e.Mild) : e.launched? = none := by
  cases h with
  | readDma h c value =>
    rw [launched?, Dma.Register.ofOffset?_offset]
    split
    · next heq =>
      obtain ⟨rfl, -⟩ := Dma.Register.mk.inj (Option.some.inj heq)
      exact absurd rfl h
    · rfl
  | readUnit | write | spin | suspend | report => rfl

/-- Waits add to the lines that wake the hart, and leave the reported ones alone. -/
theorem of_ofWait (h : e.OfWait) : e.Mild := by
  cases h with
  | look | waking => exact .readUnit _ _
  | takeDown m => exact .write rfl _
  | wake m => exact .write rfl _
  | spin cycles => exact .spin cycles
  | suspend => exact .suspend
  | report s text => exact .report s text

end Mild
end Event

namespace Driver

variable {α β ι : Type}

/-- The driver does nothing but what is mild. -/
def Mild (x : Driver α) : Prop :=
  ∀ ⦃v : Verbosity⦄ ⦃n : Nat⦄ ⦃es : List Event⦄ ⦃a : α⦄ ⦃n' : Nat⦄, x.Does v n es a n' →
    ∀ e ∈ es, e.Mild

theorem mild_pure (a : α) : (pure a : Driver α).Mild := by
  intro v n es b n' h
  obtain ⟨rfl, -⟩ := does_pure_iff.1 h
  exact fun _ he ↦ absurd he List.not_mem_nil

theorem Mild.bind {x : Driver α} {f : α → Driver β} (hx : x.Mild)
    (hf : ∀ a, (f a).Mild) : (x >>= f).Mild := by
  intro v n es b n' h
  obtain ⟨es₁, a, n₁, es₂, rfl, h₁, h₂⟩ := does_bind_iff.1 h
  exact List.forall_mem_append.2 ⟨hx h₁, hf a h₂⟩

theorem Mild.map {x : Driver α} (hx : x.Mild) (f : α → β) : (f <$> x).Mild := by
  rw [map_eq_pure_bind]
  exact hx.bind fun a ↦ mild_pure (f a)

theorem mild_readUnit (offset : Nat) : (read .eventUnit offset).Mild := by
  intro v n es value n' h
  obtain ⟨rfl, -⟩ := does_read_iff.1 h
  exact List.forall_mem_singleton.2 (.readUnit offset value)

theorem mild_readDma (bank : Dma.Bank) (h : bank ≠ .nextId) (c : Channel) :
    (Dma.readRegister bank c).Mild := by
  intro v n es value n' hread
  obtain ⟨rfl, -⟩ := does_read_iff.1 hread
  exact List.forall_mem_singleton.2 (.readDma h c value)

theorem mild_write {r : Register} (h : r.narrows = false) (value : UInt32) :
    (write .eventUnit r.offset value).Mild := by
  intro v n es u n' hwrite
  obtain ⟨rfl, -⟩ := does_write_iff.1 hwrite
  exact List.forall_mem_singleton.2 (.write h value)

theorem mild_spin (cycles : UInt32) : (spin cycles).Mild := by
  intro v n es u n' h
  obtain ⟨rfl, -⟩ := does_spin_iff.1 h
  exact List.forall_mem_singleton.2 (.spin cycles)

theorem mild_suspend : suspend.Mild := by
  intro v n es u n' h
  obtain ⟨rfl, -⟩ := does_suspend_iff.1 h
  exact List.forall_mem_singleton.2 .suspend

theorem mild_reports (s : Severity) : (reports s).Mild := by
  intro v n es b n' h
  obtain ⟨rfl, -⟩ := Program.path_done_iff.1 h
  exact fun _ he ↦ absurd he List.not_mem_nil

theorem mild_report (s : Severity) (text : Unit → String) : (report s text).Mild := by
  intro v n es u n' h
  obtain ⟨rfl, -⟩ := does_report_iff.1 h
  split
  · exact List.forall_mem_singleton.2 (.report s _)
  · exact fun _ he ↦ absurd he List.not_mem_nil

theorem mild_loop {μ : ι → Nat} {body : ι → Driver (Turn ι α)}
    (h : ∀ i, (body i).Mild) (i : ι) : (loop μ body i).Mild := by
  intro v n es a n' hloop
  refine does_loop (R := fun _ es _ ↦ ∀ e ∈ es, e.Mild) ?_ ?_ hloop
  · exact fun i n es a n' hturn ↦ h i hturn
  · exact fun i n es i' n' es' a hturn hrest ↦ List.forall_mem_append.2 ⟨h i hturn, hrest⟩

theorem mild_anyM {p : α → Driver Bool} (h : ∀ a, (p a).Mild) (l : List α) :
    (l.anyM p).Mild := by
  induction l with
  | nil => exact mild_pure false
  | cons a l ih =>
    refine (h a).bind fun b ↦ ?_
    cases b with
    | true => exact mild_pure true
    | false => exact ih

/-- A driver that only does what waits do. -/
theorem mild_of_ofWait {x : Driver α}
    (h : ∀ ⦃v n es a n'⦄, x.Does v n es a n' → ∀ e ∈ es, e.OfWait) : x.Mild :=
  fun _ _ _ _ _ hx e he ↦ .of_ofWait (h hx e he)

end Driver

open Driver (mild_pure mild_readUnit mild_readDma mild_write mild_spin mild_suspend
  mild_report mild_reports mild_loop mild_anyM mild_of_ofWait)

/-! ## The event unit -/

namespace EventUnit

theorem mild_readLines (r : Register) : (readLines r).Mild :=
  (mild_readUnit _).bind fun _ ↦ mild_pure _

theorem mild_observe (m : EventMask) : (observe m).Mild :=
  (mild_readLines _).bind fun _ ↦ mild_pure _

theorem mild_isUp (m : EventMask) : (isUp m).Mild :=
  (mild_observe m).bind fun _ ↦ mild_pure _

theorem mild_arm (plan : WaitPlan) : (arm plan).Mild := by
  refine (mild_write rfl _).bind fun _ ↦ (mild_write rfl _).bind fun _ ↦ ?_
  dsimp only
  split
  · exact (mild_write rfl _).bind fun _ ↦ mild_report _ _
  · exact mild_report _ _

theorem mild_initDevice (d : Device) (irq : Bool) : (initDevice d irq).Mild := by
  refine (mild_write rfl _).bind fun _ ↦ (mild_write rfl _).bind fun _ ↦ ?_
  split
  · exact mild_write rfl _
  · exact mild_pure _

theorem mild_triggerSwEvent (id : Nat) : (triggerSwEvent id).Mild := by
  rw [triggerSwEvent]
  split
  · exact (mild_write rfl _).bind fun _ ↦ mild_pure _
  · exact mild_pure _

theorem mild_triggerSwEventWait (id : Nat) : (triggerSwEventWait id).Mild := by
  rw [triggerSwEventWait]
  split
  · exact (mild_readLines _).bind fun _ ↦ mild_pure _
  · exact mild_pure _

theorem mild_take (m : EventMask) : (take m).Mild :=
  mild_of_ofWait fun _ _ _ _ _ h ↦ (consumes_take h).1.ofWait

theorem mild_wait (m : EventMask) (mode : WaitMode) (budget : Budget) :
    (wait m mode budget).Mild :=
  mild_of_ofWait fun _ _ _ _ _ h ↦ (consumes_wait h).1.ofWait

theorem mild_waitAnyOf (m : EventMask) (mode : WaitMode) (budget : Budget) :
    (waitAnyOf m mode budget).Mild :=
  mild_of_ofWait fun _ _ _ _ _ h ↦ (consumes_waitAnyOf h).1.ofWait

theorem mild_waitAll (plan : WaitPlan) : (waitAll plan).Mild := by
  refine Driver.Mild.bind ?_ fun _ ↦ mild_pure _
  refine mild_of_ofWait fun v n es a n' h ↦ ?_
  obtain ⟨answer, rounds⟩ := a
  obtain ⟨-, rfl, -⟩ | ⟨es', outcome, t, n₁, records, -, -, hrecords, hrounds⟩ :=
    does_waitAllRounds h
  · exact fun _ he ↦ absurd he List.not_mem_nil
  have hquiet : ∀ e ∈ records, e.OfWait := fun e he ↦ (hrecords.quiet e he).1
  obtain ⟨-, hrounds, -, rfl⟩ | ⟨-, hrounds, rfl⟩ := hrounds
  · exact List.forall_mem_append.2 ⟨(consumes_suspendRounds hrounds).1.ofWait,
      List.forall_mem_cons.2 ⟨.takeDown _, hquiet⟩⟩
  · exact List.forall_mem_append.2 ⟨(polled_pollRounds hrounds).1.of_empty.1.ofWait, hquiet⟩

end EventUnit

/-! ## The data mover -/

namespace Dma

theorem mild_isBusy (c : Channel) : (isBusy c).Mild :=
  (mild_readDma .status nofun c).bind fun _ ↦ mild_pure _

theorem mild_lastDone (c : Channel) : (lastDone c).Mild :=
  (mild_readDma .doneId nofun c).bind fun _ ↦ mild_pure _

theorem mild_isRetired (id : TransferId) : (isRetired id).Mild :=
  mild_anyM (fun _ ↦ (mild_lastDone _).bind fun _ ↦ mild_pure _) _

theorem mild_anyBusy : anyBusy.Mild := mild_anyM (fun _ ↦ mild_isBusy _) _

/-- A launch is one read, which starts the transfer, and a record of it. -/
theorem does_launch {c : Channel} {v : Verbosity} {n n' : Nat} {es : List Event} {id : TransferId}
    (h : (launch c).Does v n es id n') :
    ∃ records, EventUnit.Records records ∧
      es = .read .dma (Register.offset ⟨.nextId, c⟩) id.number :: records := by
  obtain ⟨es₁, number, n₁, es₂, rfl, hread, hrest⟩ := Driver.does_bind_iff.1 h
  obtain ⟨rfl, rfl⟩ := Driver.does_read_iff.1 hread
  obtain ⟨u, rfl, hreport⟩ := Driver.does_bind_pure_iff.1 hrest
  exact ⟨es₂, EventUnit.records_of_report hreport, rfl⟩

theorem mild_isSettled (c : Channel) (id : TransferId) : (isSettled c id).Mild := by
  refine (mild_isBusy c).bind fun _ ↦ ?_
  split
  · exact mild_pure _
  · exact (mild_lastDone c).bind fun _ ↦ mild_pure _

theorem mild_waitFor (c : Channel) (id : TransferId) (budget : Budget) :
    (waitFor c id budget).Mild := by
  rw [waitFor]
  split
  · refine mild_loop (fun elapsed ↦ (mild_isSettled c id).bind fun _ ↦ ?_) 0
    split
    · exact (mild_report _ _).bind fun _ ↦ mild_pure _
    · refine (mild_spin _).bind fun _ ↦ ?_
      dsimp only
      split
      · refine (mild_reports _).bind fun _ ↦ ?_
        split
        · exact (mild_lastDone c).bind fun _ ↦ (mild_report _ _).bind fun _ ↦
            mild_pure _
        · exact mild_pure _
      · exact mild_pure _
  · exact mild_pure _

theorem mild_spinUntil {holds : Driver Bool} (h : holds.Mild) (budget : Budget) :
    (spinUntil holds budget).Mild := by
  refine mild_loop (fun elapsed ↦ h.bind fun _ ↦ ?_) 0
  split
  · exact mild_pure _
  · refine (mild_spin 1).bind fun _ ↦ ?_
    dsimp only
    split <;> exact mild_pure _

theorem mild_warnIfFailed (text : Unit → String) (outcome : Except WaitError Unit) :
    (warnIfFailed text outcome).Mild := by
  cases outcome with
  | ok u => exact mild_pure _
  | error e => exact (mild_report _ _).bind fun _ ↦ mild_pure _

theorem mild_waitRetired (id : TransferId) (budget : Budget) :
    (waitRetired id budget).Mild := by
  rw [waitRetired]
  split
  · exact (mild_spinUntil (mild_isRetired id) budget).bind fun outcome ↦
      mild_warnIfFailed _ outcome
  · exact mild_pure _

theorem mild_barrier (budget : Budget) : (barrier budget).Mild :=
  (mild_spinUntil (mild_anyBusy.bind fun _ ↦ mild_pure _) budget).bind
    fun outcome ↦ mild_warnIfFailed _ outcome

end Dma

/-! ## Every command -/

namespace Command

/-- The command disables lines or resets the masks. -/
def Narrows : Command → Prop
  | init | disable _ | disableIrq _ => True
  | _ => False

/-- The command starts a transfer. -/
def Launches : Command → Prop
  | launch _ _ => True
  | _ => False

theorem mild_silently {x : Driver Unit} (h : x.Mild) : (silently x).Mild :=
  h.bind fun _ ↦ mild_pure _

theorem mild_onChannel (d : Direction) (index : Nat) {x : Channel → Driver Answer}
    (h : ∀ c, (x c).Mild) : (onChannel d index x).Mild := by
  rw [onChannel]
  split
  · exact h _
  · exact mild_pure _

/-- **All others are mild.** -/
theorem mild {c : Command} (h : ¬ c.Narrows) (h' : ¬ c.Launches) : c.driver.Mild := by
  cases c with
  | init | disable | disableIrq => exact absurd trivial h
  | launch => exact absurd trivial h'
  | spin cycles => exact mild_silently (mild_spin cycles)
  | suspendHart => exact mild_silently mild_suspend
  | enable | enableIrq | clear | enableSwTargets | disableSwTargets =>
    exact mild_silently (mild_write rfl _)
  | observe m => exact (EventUnit.mild_observe m).map _
  | take m => exact (EventUnit.mild_take m).map _
  | enabled | irqEnabled | pending | pendingMasked | pendingIrqMasked | sleep | sleepClear =>
    exact (EventUnit.mild_readLines _).map _
  | clockEnabled => exact ((mild_readUnit _).bind fun _ ↦ mild_pure _).map _
  | swTargets => exact (mild_readUnit _).map _
  | triggerSwEvent id => exact (EventUnit.mild_triggerSwEvent id).map _
  | triggerSwEventWait id => exact (EventUnit.mild_triggerSwEventWait id).map _
  | poll m budget => exact (EventUnit.mild_wait m .polling budget).map _
  | suspend m => exact (EventUnit.mild_wait m .suspend .unbounded).map _
  | wait m mode budget => exact (EventUnit.mild_wait m mode budget).map _
  | waitAnyOf | waitAny | waitDevice => exact (EventUnit.mild_waitAnyOf _ _ _).map _
  | arm plan => exact mild_silently (EventUnit.mild_arm plan)
  | waitAll plan => exact (EventUnit.mild_waitAll plan).map _
  | initDevice d irq => exact mild_silently (EventUnit.mild_initDevice d irq)
  | isDone | isBusy | hasError => exact (EventUnit.mild_isUp _).map _
  | dmaAnyError =>
    exact ((EventUnit.mild_readLines _).bind fun _ ↦ mild_pure _).map _
  | channelBusy d index =>
    exact mild_onChannel d index fun c ↦ (Dma.mild_isBusy c).map _
  | lastDone d index => exact mild_onChannel d index fun c ↦ (Dma.mild_lastDone c).map _
  | waitFor d index id budget =>
    exact mild_onChannel d index fun c ↦ (Dma.mild_waitFor c id budget).map _
  | isRetired id => exact (Dma.mild_isRetired id).map _
  | anyBusy => exact Dma.mild_anyBusy.map _
  | waitRetired id budget => exact (Dma.mild_waitRetired id budget).map _
  | barrier budget => exact (Dma.mild_barrier budget).map _

end Command
end TileEvents
