import TileEvents.Proofs.Consumption
import TileEvents.Proofs.Uses

/-!
# What a wait touches

No wait touches the reported lines, software events or the unit's own sleep, and lines are only
taken down right after a look that found them up while they were asked for (`footprint`).  That
holds of every wait that a program can call, as each is uses of one of the two ways to block.  The
one exception is a wait for all devices that sleeps: when it ends, it takes down what it has seen
before once more, without a look.
-/

set_option autoImplicit false

namespace TileEvents
namespace EventUnit

section Runs

variable {σ : Type} {p : Platform σ} {v : Verbosity} {n : Nat} {s : σ}

/-- A record is left or not, and the hardware does not notice. -/
theorem run_report (p : Platform σ) (v : Verbosity) (n : Nat) (s : σ) (severity : Severity)
    (text : Unit → String) : ∃ records, Records records ∧
      p.run ((Driver.report severity text).program v n) s = ⟨records, .returned ((), n) s⟩ := by
  rw [Driver.program, Driver.report]
  split
  · exact ⟨[.report severity (text ())], List.forall_mem_singleton.2 ⟨_, _, rfl⟩, rfl⟩
  · exact ⟨[], records_nil, rfl⟩

/-- What comes after the rounds of a wait that sleeps: if the hardware lets it, everything is taken
down, and the wait returns. -/
theorem run_clear_total (p : Platform σ) (v : Verbosity) (n : Nat) (s : σ) (m : EventMask)
    (text : Unit → String) :
    let r := p.run ((clear m >>= fun _ ↦ Driver.report .debug text >>= fun _ ↦
      pure (.ok m) : Driver (Except WaitError EventMask)).program v n) s
    r.events = [] ∨ ∃ s' records, r.events = .takeDown m :: records ∧ Records records ∧
      r.outcome = .returned (.ok m, n) s' := by
  intro r
  have hstep : r = p.run (.step (.write .eventUnit Register.bufferClear.offset m.bits) fun _ ↦
      (Driver.report .debug text >>= fun _ ↦
        pure (.ok m) : Driver (Except WaitError EventMask)).program v n) s := rfl
  rw [Platform.run_step] at hstep
  rcases hanswer : p.answer (.write .eventUnit Register.bufferClear.offset m.bits) s with
    f | ⟨u, s'⟩
  · rw [hanswer] at hstep
    exact .inl (by rw [hstep])
  · obtain ⟨records, hrecords, hreport⟩ := run_report p v n s' .debug text
    rw [hanswer] at hstep
    dsimp only at hstep
    rw [Driver.bind_program, Platform.run_bind, hreport] at hstep
    rw [hstep]
    exact .inr ⟨s', records, congrArg _ (List.append_nil records), hrecords, rfl⟩

/-- **A run of a wait for all devices that sleeps.**  It is uses of `suspend`, and if they are over
and the hardware lets it, everything is taken down once more; then the wait returns. -/
theorem run_waitAll_asleep {plan : WaitPlan} (hmode : plan.mode = .suspend) :
    AreUses .suspend plan.required (p.run ((waitAll plan).program v n) s).events ∨
      ∃ es t n' s' records, (suspendRounds plan.required).Does v n es t n' ∧
        (p.run ((waitAll plan).program v n) s).events = es ++ .takeDown plan.required :: records ∧
        Records records ∧
        (p.run ((waitAll plan).program v n) s).outcome =
          .returned (.ok plan.required, n') s' := by
  cases hrequired : plan.required.isEmpty with
  | true =>
    rw [waitAll_eq_empty hrequired]
    exact .inl .nil
  | false =>
    rw [waitAll_eq_asleep hmode hrequired, Driver.bind_program, Platform.run_bind]
    have hbegins := Program.begins_run p ((suspendRounds plan.required).program v n) s
    rcases hrun : p.run ((suspendRounds plan.required).program v n) s with
      ⟨es, ⟨⟨t, n₁⟩, s₁⟩ | f | _⟩
    · have hdoes : (suspendRounds plan.required).Does v n es t n₁ := .of_run hrun
      obtain ⟨-, htotal⟩ := consumes_suspendRounds hdoes
      rw [← htotal]
      rcases run_clear_total p v n₁ s₁ t.total
        fun _ ↦ s!"wait_all: {t.total.describe} complete" with h | ⟨s', records, h, hrecords, ho⟩
      · left
        have hevents := (areUses_suspendRounds hdoes.begins)
        rw [← htotal, ← List.append_nil es, ← h] at hevents
        exact hevents
      · exact .inr ⟨es, t, n₁, s', records, htotal ▸ hdoes, congrArg (es ++ ·) h, hrecords, ho⟩
    · rw [hrun] at hbegins
      exact .inl (areUses_suspendRounds hbegins)
    · rw [hrun] at hbegins
      exact .inl (areUses_suspendRounds hbegins)

end Runs

/-! ## Every wait -/

/-- A wait that a program can call. -/
inductive Wait
  | poll (m : EventMask) (budget : Budget)
  | suspend (m : EventMask)
  /-- One of the two, as the mode says. -/
  | block (m : EventMask) (mode : WaitMode) (budget : Budget)
  | anyOf (m : EventMask) (mode : WaitMode) (budget : Budget)
  | any (plan : WaitPlan)
  | device (d : Device) (mode : WaitMode)
  | all (plan : WaitPlan)

namespace Wait

/-- The mode that the wait blocks in. -/
def mode : Wait → WaitMode
  | poll _ _ => .polling
  | suspend _ => .suspend
  | block _ mode _ => mode
  | anyOf _ mode _ => mode
  | any plan => plan.mode
  | device _ mode => mode
  | all plan => plan.mode

/-- The lines that the wait is for. -/
def mask : Wait → EventMask
  | poll m _ => m
  | suspend m => m
  | block m _ _ => m
  | anyOf m _ _ => m
  | any plan => plan.required
  | device d _ => d.doneMask
  | all plan => plan.required

/-- What runs.  A blocking operation that comes back with nothing is no error. -/
def driver : Wait → Driver (Except WaitError EventMask)
  | poll m budget => return .ok (← EventUnit.poll m budget)
  | suspend m => return .ok (← EventUnit.suspend m)
  | block m mode budget => return .ok (← wait m mode budget)
  | anyOf m mode budget => waitAnyOf m mode budget
  | any plan => waitAny plan
  | device d mode => waitDevice d mode
  | all plan => waitAll plan

end Wait

variable {v : Verbosity} {n : Nat} {es : List Event}

/-- A wait that is not for all of several devices is uses of one of the two ways to block. -/
theorem areUses_driver {w : Wait} (hone : ∀ plan, w ≠ .all plan)
    (h : w.driver.Begins v n es) : AreUses w.mode w.mask es := by
  cases w with
  | poll m budget => exact .of_begins budget (Driver.begins_bind_pure_iff.1 h)
  | suspend m => exact .of_begins .unbounded (Driver.begins_bind_pure_iff.1 h)
  | block m mode budget => exact .of_begins budget (Driver.begins_bind_pure_iff.1 h)
  | anyOf m mode budget => exact areUses_waitAnyOf h
  | any plan => exact areUses_waitAnyOf h
  | device d mode => exact areUses_waitAnyOf h
  | all plan => exact absurd rfl (hone plan)

/-- A wait for all devices that polls is uses of `poll`, and records. -/
theorem areUses_waitAll_polling {plan : WaitPlan} (hmode : plan.mode = .polling)
    (h : (waitAll plan).Begins v n es) :
    ∃ es' records, es = es' ++ records ∧ AreUses .polling plan.required es' ∧ Records records := by
  cases hrequired : plan.required.isEmpty with
  | true =>
    rw [waitAll_eq_empty hrequired] at h
    obtain rfl := Driver.begins_pure_iff.1 h
    exact ⟨[], [], rfl, .nil, records_nil⟩
  | false =>
    rw [waitAll_eq_polling hmode hrequired, Driver.begins_bind_iff] at h
    rcases h with h | ⟨es₁, ⟨outcome, t⟩, n₁, es₂, rfl, hrounds, h⟩
    · exact ⟨es, [], (List.append_nil es).symm, areUses_pollRounds h, records_nil⟩
    · refine ⟨es₁, es₂, rfl, areUses_pollRounds hrounds.begins, ?_⟩
      cases outcome with
      | ok u => exact records_of_begins_report (Driver.begins_bind_pure_iff.1 h)
      | error e =>
        obtain rfl := Driver.begins_pure_iff.1 h
        exact records_nil

/-- A wait for all devices that sleeps is uses of `suspend`, and when they are over it takes
everything down once more. -/
theorem begins_waitAll_asleep {plan : WaitPlan} (hmode : plan.mode = .suspend)
    (h : (waitAll plan).Begins v n es) : AreUses .suspend plan.required es ∨
      ∃ es' t n' records, (suspendRounds plan.required).Does v n es' t n' ∧
        es = es' ++ .takeDown plan.required :: records ∧ Records records := by
  cases hrequired : plan.required.isEmpty with
  | true =>
    rw [waitAll_eq_empty hrequired] at h
    obtain rfl := Driver.begins_pure_iff.1 h
    exact .inl .nil
  | false =>
    rw [waitAll_eq_asleep hmode hrequired, Driver.begins_bind_iff] at h
    rcases h with h | ⟨es₁, t, n₁, es₂, rfl, hrounds, h⟩
    · exact .inl (areUses_suspendRounds h)
    obtain ⟨-, htotal⟩ := consumes_suspendRounds hrounds
    rw [htotal, Driver.begins_bind_iff] at h
    rcases h with h | ⟨es₃, u, n₂, records, rfl, hclear, h⟩
    · rcases Driver.begins_write h with rfl | rfl
      · rw [List.append_nil]
        exact .inl (areUses_suspendRounds hrounds.begins)
      · exact .inr ⟨es₁, t, n₁, [], hrounds, rfl, records_nil⟩
    · obtain ⟨rfl, rfl⟩ := does_clear_iff.1 hclear
      exact .inr ⟨es₁, t, n₂, records, hrounds, rfl,
        records_of_begins_report (Driver.begins_bind_pure_iff.1 h)⟩

/-- **What a wait does up to any point is what its mode allows.** -/
theorem ofMode_driver {w : Wait} (h : w.driver.Begins v n es) : ∀ e ∈ es, e.OfMode w.mode := by
  by_cases hall : ∃ plan, w = .all plan
  · obtain ⟨plan, rfl⟩ := hall
    cases hmode : (Wait.all plan).mode with
    | polling =>
      obtain ⟨es, records, rfl, ⟨uses, huses, rfl⟩, hrecords⟩ := areUses_waitAll_polling hmode h
      exact List.forall_mem_append.2 ⟨huses.ofMode, hrecords.ofMode⟩
    | suspend =>
      obtain ⟨uses, huses, rfl⟩ | ⟨es, t, n', records, hrounds, rfl, hrecords⟩ :=
        begins_waitAll_asleep hmode h
      · exact huses.ofMode
      · obtain ⟨uses, huses, rfl⟩ := areUses_suspendRounds hrounds.begins
        exact List.forall_mem_append.2
          ⟨huses.ofMode, List.forall_mem_cons.2 ⟨.takeDown _, hrecords.ofMode⟩⟩
  · obtain ⟨uses, huses, rfl⟩ := areUses_driver (fun plan hw ↦ hall ⟨plan, hw⟩) h
    exact huses.ofMode

/-- What the rounds of a wait that sleeps have taken was up at one of their looks. -/
theorem exists_look_of_suspendRounds {required : EventMask} {t : Tally} {n' b : Nat}
    {uses : List Use} (h : (suspendRounds required).Does v n (uses.flatMap Use.all) t n')
    (huses : Uses .suspend required uses) (hb : b ∈ required) :
    ∃ u ∈ uses, ∃ up, .look up ∈ u.events ∧ b ∈ up := by
  obtain ⟨hc, -⟩ := consumes_suspendRounds h
  obtain ⟨up, hlook, hup⟩ := hc.exists_look hb
  obtain ⟨u, hu, hall⟩ := List.mem_flatMap.1 hlook
  rcases List.mem_append.1 hall with hevents | hrecord
  · exact ⟨u, hu, up, hevents, hup⟩
  · obtain ⟨s, text, hreport⟩ := (huses.orderly hu).2 _ hrecord
    simp [Event.look] at hreport

/-- What a wait for all devices answers with was up at its looks. -/
theorem exists_look_of_waitAll {plan : WaitPlan} {m : EventMask} {n' b : Nat}
    (h : (waitAll plan).Does v n es (.ok m) n') (hb : b ∈ m) :
    ∃ up, .look up ∈ es ∧ b ∈ up := by
  obtain ⟨⟨answer, rounds⟩, hanswer, hall⟩ := Driver.does_bind_pure_iff.1 h
  obtain rfl : .ok m = answer := hanswer
  obtain ⟨-, -, hempty⟩ | ⟨es', outcome, t, n₁, records, houtcome, -, -, hrounds⟩ :=
    does_waitAllRounds hall
  · exact nomatch hempty
  obtain rfl : m = t.total := by
    cases outcome with
    | ok u => exact Except.ok.inj houtcome
    | error e => exact nomatch houtcome
  have hconsumes : Consumes es' t.total ∧ ∃ rest, es = es' ++ rest := by
    obtain ⟨-, hrounds, -, rfl⟩ | ⟨-, hrounds, rfl⟩ := hrounds
    · obtain ⟨hc, htotal⟩ := consumes_suspendRounds hrounds
      exact ⟨htotal ▸ hc, _, rfl⟩
    · exact ⟨(polled_pollRounds hrounds).1.of_empty.1, _, rfl⟩
  obtain ⟨hc, rest, rfl⟩ := hconsumes
  obtain ⟨up, hlook, hup⟩ := hc.exists_look hb
  exact ⟨up, List.mem_append_left rest hlook, hup⟩

/-- A wait for all devices that sleeps has come to its end: after its uses it has taken down what is
required once more, all of which was up at some look of them. -/
def Closes {σ : Type} (w : Wait) (uses : List Use) (closing : List Event)
    (outcome : Outcome σ (Except WaitError EventMask × Nat)) : Prop :=
  ∃ plan n s records, w = .all plan ∧ plan.mode = .suspend ∧
    outcome = .returned (.ok plan.required, n) s ∧
    closing = .takeDown plan.required :: records ∧ Records records ∧
    ∀ b ∈ plan.required, ∃ u ∈ uses, ∃ up, .look up ∈ u.events ∧ b ∈ up

/-- What a run of a wait may do: use its way to block, each time taking lines down only after a
look, and then leave records, or end as a wait for all devices that sleeps does. -/
structure Footprint {σ : Type} (w : Wait) (r : Run σ (Except WaitError EventMask × Nat)) :
    Prop where
  ofMode : ∀ e ∈ r.events, e.OfMode w.mode
  uses : ∃ uses closing, r.events = uses.flatMap Use.all ++ closing ∧ Uses w.mode w.mask uses ∧
    (∀ u ∈ uses, Guarded u.requested u.events ∧ Records u.records) ∧
    (Records closing ∨ Closes w uses closing r.outcome)

theorem Footprint.of_uses {σ : Type} {w : Wait} {r : Run σ (Except WaitError EventMask × Nat)}
    {uses : List Use} {closing : List Event} (huses : Uses w.mode w.mask uses)
    (hevents : r.events = uses.flatMap Use.all ++ closing)
    (hclosing : Records closing ∨ Closes w uses closing r.outcome) : Footprint w r where
  ofMode := by
    rw [hevents, List.forall_mem_append]
    refine ⟨huses.ofMode, ?_⟩
    rcases hclosing with hrecords | ⟨plan, n, s, records, -, -, -, rfl, hrecords, -⟩
    · exact hrecords.ofMode
    · exact List.forall_mem_cons.2 ⟨.takeDown _, hrecords.ofMode⟩
  uses := ⟨uses, closing, hevents, huses,
    fun _ hu ↦ ⟨(huses.orderly hu).1.guarded, (huses.orderly hu).2⟩, hclosing⟩

/-- **What a wait touches, and when it takes lines down.**  On any hardware and whatever becomes of
a run, its accesses are those of the wait's mode, and lines are taken down only directly after a
look that found them up while they were asked for.  Only a wait for all devices that sleeps, when
it ends, takes down what it has seen before. -/
theorem footprint {σ : Type} (p : Platform σ) (w : Wait) (v : Verbosity) (n : Nat) (s : σ) :
    Footprint w (p.run (w.driver.program v n) s) := by
  have hbegins : w.driver.Begins v n (p.run (w.driver.program v n) s).events :=
    Program.begins_run p _ s
  by_cases hall : ∃ plan, w = .all plan
  · obtain ⟨plan, rfl⟩ := hall
    cases hmode : (Wait.all plan).mode with
    | polling =>
      obtain ⟨es, records, hevents, ⟨uses, huses, rfl⟩, hrecords⟩ :=
        areUses_waitAll_polling hmode hbegins
      exact .of_uses (hmode ▸ huses) hevents (.inl hrecords)
    | suspend =>
      obtain ⟨uses, huses, hevents⟩ | ⟨es, t, n', s', records, hrounds, hevents, hrecords, hend⟩ :=
        run_waitAll_asleep hmode
      · exact .of_uses (hmode ▸ huses) (hevents.trans (List.append_nil _).symm) (.inl records_nil)
      · obtain ⟨uses, huses, rfl⟩ := areUses_suspendRounds hrounds.begins
        exact .of_uses (hmode ▸ huses) hevents (.inr ⟨plan, n', s', records, rfl, hmode, hend, rfl,
          hrecords, fun _ hb ↦ exists_look_of_suspendRounds hrounds huses hb⟩)
  · obtain ⟨uses, huses, hevents⟩ := areUses_driver (fun plan hw ↦ hall ⟨plan, hw⟩) hbegins
    exact .of_uses huses (hevents.trans (List.append_nil _).symm) (.inl records_nil)

end EventUnit
end TileEvents
