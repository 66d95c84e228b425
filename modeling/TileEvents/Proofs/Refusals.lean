import TileEvents.Command
import TileEvents.Proofs.Spending

/-!
# What can go wrong

An operation is answered with an error for one of two reasons.  What was asked for is refused, which
can be told from the arguments alone (`Command.refusal?`) and is told before anything is done; or a
wait with a budget has let time pass until the budget was spent.  There is no third one
(`Command.run_failed`), whatever the hardware replies: a wait that sleeps has no end but the one it
was asked for, and neither has one without a bound.

A wait for all of several devices charges each of its rounds in full, also one that takes a line at
its first look.  So it is the only one that can be out of time before any time has passed, and only
if its budget has no more slices than there are lines, but one (`WaitPlan.SpentAtOnce`).
-/

set_option autoImplicit false

namespace TileEvents

/-- All of the budget was charged for rounds that have taken a line at their first look. -/
structure WaitPlan.SpentAtOnce (plan : WaitPlan) (es : List Event) : Prop where
  budget_le : plan.budget.rounds.toNat ≤ (plan.required.size - 1) * plan.slice.rounds.toNat
  found : ∀ up, .look up ∈ es → (up ∩ plan.required).isEmpty = false

section GivesUp

open EventUnit (delays)

variable {α ι : Type} {v : Verbosity} {n n' : Nat} {es es' : List Event} {budget : Budget}

/-- If the answer is an error, then a budget with a bound was spent, and some time has passed. -/
def GivesUp (budget : Budget) (es : List Event) (a : Except WaitError α) : Prop :=
  ∀ e, a = .error e → e = .timeout ∧ budget.isUnbounded = false ∧ 0 < delays es

theorem givesUp_ok (a : α) : GivesUp budget es (.ok a) := nofun

/-- What happens before or after makes no difference. -/
theorem GivesUp.append_left {a : Except WaitError α} (h : GivesUp budget es' a) :
    GivesUp budget (es ++ es') a := by
  intro e ha
  obtain ⟨htimeout, hbounded, hdelays⟩ := h e ha
  exact ⟨htimeout, hbounded, by rw [EventUnit.delays_append]; omega⟩

theorem GivesUp.append_right {a : Except WaitError α} (h : GivesUp budget es a) :
    GivesUp budget (es ++ es') a := by
  intro e ha
  obtain ⟨htimeout, hbounded, hdelays⟩ := h e ha
  exact ⟨htimeout, hbounded, by rw [EventUnit.delays_append]; omega⟩

/-- A budget that runs out has a bound. -/
theorem givesUp_timeout {elapsed : UInt32} (hspent : budget.isExhausted elapsed = true)
    (hdelays : 0 < delays es) : GivesUp budget es (.error .timeout : Except WaitError α) := by
  rintro e ⟨⟩
  have hrounds := (Budget.isExhausted_iff.1 hspent).1
  exact ⟨rfl, Budget.isUnbounded_eq_false_iff.2 (Nat.pos_of_ne_zero hrounds), hdelays⟩

/-- A loop gives up if it does in its last turn. -/
theorem givesUp_loop {μ : ι → Nat} {body : ι → Driver (Driver.Turn ι (Except WaitError α))}
    (hstop : ∀ i n es a n', (body i).Does v n es (.stop a) n' → GivesUp budget es a) {i : ι}
    {a : Except WaitError α} (h : (Driver.loop μ body i).Does v n es a n') :
    GivesUp budget es a :=
  Driver.does_loop (R := fun _ es a ↦ GivesUp budget es a) hstop
    (fun _ _ _ _ _ _ _ _ hrest ↦ hrest.append_left) h

end GivesUp

/-! ## Waits for lines -/

namespace EventUnit

variable {v : Verbosity} {n n' : Nat} {es : List Event} {m seen required : EventMask}
  {mode : WaitMode} {budget : Budget} {plan : WaitPlan}

/-- A poll that comes back with nothing had a budget, and has let time pass. -/
theorem spent_of_poll (h : (poll m budget).Does v n es seen n') (hnone : seen.isEmpty = true) :
    budget.isUnbounded = false ∧ 0 < delays es := by
  obtain ⟨ups, -, hpolls⟩ := does_poll h
  cases hpolls with
  | found hrecords hsome hleft => simp [hsome] at hnone
  | spent hrecords hlook hbounded hover =>
    refine ⟨hbounded, ?_⟩
    rw [delays_append, delays_idle]
    have := List.length_pos_iff.2 hlook
    omega

theorem givesUp_waitAnyTurn {turn : Except WaitError EventMask}
    (h : (waitAnyTurn m mode budget).Does v n es (.stop turn) n') :
    GivesUp budget es turn ∧ ∀ e, turn = .error e → mode = .polling := by
  obtain ⟨es, seen, records, hwait, rfl, hrecords, hturn⟩ := does_waitAnyTurn h
  obtain ⟨-, hturn⟩ | ⟨hnone, ⟨rfl, hturn⟩ | ⟨-, -, hturn⟩⟩ := hturn
  · obtain rfl := Driver.Turn.stop.inj hturn
    exact ⟨givesUp_ok seen, nofun⟩
  · obtain rfl := Driver.Turn.stop.inj hturn
    obtain ⟨hbounded, hdelays⟩ := spent_of_poll hwait hnone
    have hgives : GivesUp budget es (.error .timeout : Except WaitError EventMask) := by
      rintro e ⟨⟩
      exact ⟨rfl, hbounded, hdelays⟩
    exact ⟨hgives.append_right, fun _ _ ↦ rfl⟩
  · cases hturn

/-- **A wait for some line that fails** polled, had a budget, and has let time pass. -/
theorem givesUp_waitAnyOf (hm : m.isEmpty = false) {a : Except WaitError EventMask}
    (h : (waitAnyOf m mode budget).Does v n es a n') :
    GivesUp budget es a ∧ ∀ e, a = .error e → mode = .polling := by
  rw [waitAnyOf_eq mode budget hm] at h
  refine ⟨givesUp_loop (fun _ _ _ _ _ hturn ↦ (givesUp_waitAnyTurn hturn).1) h, ?_⟩
  exact Driver.does_loop
    (R := fun _ _ (a : Except WaitError EventMask) ↦ ∀ e, a = .error e → mode = .polling)
    (fun _ _ _ _ _ hturn ↦ (givesUp_waitAnyTurn hturn).2) (fun _ _ _ _ _ _ _ _ hrest ↦ hrest) h

/-! ## The wait for all of several devices -/

/-- Rounds run out of a budget only if both have a bound: a slice without one is charged nothing. -/
theorem bounded_of_pollRounds {a : Except WaitError Unit × Tally}
    (h : (pollRounds required plan).Does v n es a n') {e : WaitError} (he : a.1 = .error e) :
    plan.budget.isUnbounded = false ∧ plan.slice.isUnbounded = false := by
  -- what the rounds carry along: without a bound on the slice nothing was ever charged
  have key : (plan.slice.isUnbounded = true → (0 : UInt32).toNat = 0) → a.1 = .error e →
      plan.budget.isUnbounded = false ∧ plan.slice.isUnbounded = false := by
    refine Driver.does_loop (R := fun c _ a ↦
      (plan.slice.isUnbounded = true → c.elapsed.toNat = 0) → a.1 = .error e →
        plan.budget.isUnbounded = false ∧ plan.slice.isUnbounded = false) ?_ ?_ h
    · rintro c n es ⟨outcome, t⟩ n' h hcharged rfl
      obtain ⟨limit, seen, n₁, polled, records, -, -, -, -, hturn⟩ := does_pollRound h
      obtain ⟨-, hstop⟩ | ⟨-, ⟨hexhausted, -⟩ | ⟨-, hstop⟩⟩ := c.verdict_cases required plan
        ⟨c.tally.missing required, some limit, seen⟩
      · simp [← hturn] at hstop
      · obtain ⟨hrounds, hle⟩ := Budget.isExhausted_addSaturating_iff.1 hexhausted
        refine ⟨Budget.isUnbounded_eq_false_iff.2 (Nat.pos_of_ne_zero hrounds), ?_⟩
        rw [Bool.eq_false_iff]
        intro hslice
        have := hcharged hslice
        rw [Budget.isUnbounded_iff] at hslice
        omega
      · simp [← hturn] at hstop
    · intro c n es c' n' es' a h hrest hcharged
      obtain ⟨limit, seen, n₁, polled, records, -, -, -, -, hturn⟩ := does_pollRound h
      obtain ⟨-, rfl⟩ := Charged.verdict_again hturn.symm
      refine hrest fun hslice ↦ ?_
      rw [toNat_addSaturating, hcharged hslice, Budget.isUnbounded_iff.1 hslice]
      rfl
  exact key (fun _ ↦ rfl) he

/-- Where no time has passed in a round, its only look has found something. -/
theorem found_of_pollRound {c : Charged}
    {turn : Driver.Turn Charged (Except WaitError Unit × Tally)}
    (h : (pollRound required plan c).Does v n es turn n') (hdelays : delays es = 0) :
    ∀ up, .look up ∈ es → (up ∩ required).isEmpty = false := by
  obtain ⟨limit, seen, n₁, polled, records, -, hpoll, rfl, hrecords, -⟩ := does_pollRound h
  obtain ⟨ups, -, hpolls⟩ := does_poll hpoll
  cases hpolls with
  | @found up records' hrecords' hsome hleft =>
    obtain rfl : ups = [] := by
      simp only [delays_append, delays_idle] at hdelays
      exact List.length_eq_zero_iff.1 (by omega)
    intro up' hup'
    -- neither records nor the write that takes lines down are looks
    have hnever : ∀ es, Records es → Event.look up' ∉ es := fun es hes hmem ↦ by
      obtain ⟨s, text, h⟩ := hes _ hmem
      simp [Event.look] at h
    simp only [idle_nil, List.nil_append, List.cons_append, List.mem_cons, List.mem_append,
      hnever _ hrecords', hnever _ hrecords, or_false] at hup'
    obtain hlook | hdown := hup'
    · obtain rfl : up' = up := congrArg EventMask.mk (Event.read.inj hlook).2.2
      rw [EventMask.isEmpty_eq_false_iff] at hsome ⊢
      obtain ⟨b, hb⟩ := hsome
      obtain ⟨hup, hmissing⟩ := EventMask.mem_inter.1 hb
      exact ⟨b, EventMask.mem_inter.2 ⟨hup, (EventMask.mem_sdiff.1 hmissing).1⟩⟩
    · simp [Event.look, Event.takeDown] at hdown
  | spent hrecords' hlook hbounded hover =>
    simp only [delays_append, delays_idle] at hdelays
    exact absurd (List.length_eq_zero_iff.1 (by omega)) hlook

theorem found_of_pollRounds {a : Except WaitError Unit × Tally}
    (h : (pollRounds required plan).Does v n es a n') (hdelays : delays es = 0) :
    ∀ up, .look up ∈ es → (up ∩ required).isEmpty = false := by
  refine Driver.does_loop (R := fun _ es _ ↦ delays es = 0 →
    ∀ up, .look up ∈ es → (up ∩ required).isEmpty = false) ?_ ?_ h hdelays
  · exact fun _ _ _ _ _ hturn ↦ found_of_pollRound hturn
  · intro c n es c' n' es' a hturn hrest hnone up hup
    rw [delays_append] at hnone
    rcases List.mem_append.1 hup with hup | hup
    · exact found_of_pollRound hturn (by omega) up hup
    · exact hrest (by omega) up hup

/-- **A wait for all devices that fails** polled and had a budget.  It has let time pass, or each of
its rounds has taken a line at once. -/
theorem givesUp_waitAll (hrequired : plan.required.isEmpty = false) {e : WaitError}
    (h : (waitAll plan).Does v n es (.error e) n') :
    e = .timeout ∧ plan.mode = .polling ∧ plan.budget.isUnbounded = false ∧
      (0 < delays es ∨ plan.SpentAtOnce es) := by
  obtain ⟨⟨answer, rounds⟩, hanswer, hall⟩ := Driver.does_bind_pure_iff.1 h
  obtain rfl : .error e = answer := hanswer
  obtain ⟨hempty, -, -⟩ | ⟨es, outcome, t, n₁, records, hans, -, hrecords, hpath⟩ :=
    does_waitAllRounds hall
  · exact absurd (hrequired.symm.trans hempty) Bool.false_ne_true
  obtain ⟨-, -, rfl, -⟩ | ⟨hmode, hrounds, rfl⟩ := hpath
  · cases hans
  obtain rfl : outcome = .error e := by
    cases outcome with
    | ok u => cases hans
    | error e' => exact congrArg Except.error (Except.error.inj hans).symm
  obtain ⟨hbudget, hslice⟩ := bounded_of_pollRounds hrounds rfl
  obtain ⟨-, ⟨hok, -⟩ | ⟨htimeout, -⟩⟩ := polled_pollRounds hrounds
  · cases hok
  obtain rfl : e = .timeout := Except.error.inj htimeout
  refine ⟨rfl, hmode, hbudget, ?_⟩
  rcases Nat.eq_zero_or_pos (delays (es ++ records)) with hnone | hsome
  -- if no time has passed, all of the budget went to rounds that were charged without a delay
  · right
    refine ⟨?_, fun up hup ↦ ?_⟩
    · have hspent := (spent_waitAllRounds hmode hbudget hslice hrequired hall).timeout rfl
      omega
    · rw [delays_append, hrecords.delays_eq, Nat.add_zero] at hnone
      rcases List.mem_append.1 hup with hup | hup
      · exact found_of_pollRounds hrounds hnone up hup
      · obtain ⟨s, text, hrecord⟩ := hrecords _ hup
        simp [Event.look] at hrecord
  · exact .inl hsome

end EventUnit

/-! ## Waits for transfers -/

namespace Dma

open EventUnit (delays delays_append delays_cons)

variable {v : Verbosity} {n n' : Nat} {es : List Event} {budget : Budget}

theorem givesUp_waitForTurn {c : Channel} {id : TransferId} {elapsed : UInt32}
    {a : Except WaitError Unit} (h : (waitForTurn c id budget elapsed).Does v n es (.stop a) n') :
    GivesUp budget es a := by
  rw [waitForTurn, Driver.does_bind_iff] at h
  obtain ⟨es₁, settled, n₁, es₂, rfl, -, h⟩ := h
  refine GivesUp.append_left ?_
  split at h
  · obtain ⟨-, hturn, -⟩ := Driver.does_bind_pure_iff.1 h
    obtain rfl := Driver.Turn.stop.inj hturn
    exact givesUp_ok ()
  · rw [Driver.does_bind_iff] at h
    obtain ⟨es₃, u, n₂, es₄, rfl, hspin, h⟩ := h
    obtain ⟨rfl, -⟩ := Driver.does_spin_iff.1 hspin
    dsimp only at h
    split at h
    · next hexhausted =>
      obtain rfl : a = .error .timeout := by
        rw [Driver.does_bind_iff] at h
        obtain ⟨_, reported, _, _, -, -, h⟩ := h
        split at h
        · rw [Driver.does_bind_iff] at h
          obtain ⟨_, last, _, _, -, -, h⟩ := h
          obtain ⟨-, hturn, -⟩ := Driver.does_bind_pure_iff.1 h
          exact Driver.Turn.stop.inj hturn
        · exact Driver.Turn.stop.inj (Driver.does_pure_iff.1 h).2.1
      exact givesUp_timeout hexhausted (by simp)
    · cases (Driver.does_pure_iff.1 h).2.1

theorem givesUp_waitFor {c : Channel} {id : TransferId} (hid : id.isValid = true)
    {a : Except WaitError Unit} (h : (waitFor c id budget).Does v n es a n') :
    GivesUp budget es a := by
  rw [waitFor, if_pos hid] at h
  exact givesUp_loop (fun _ _ _ _ _ ↦ givesUp_waitForTurn) h

theorem givesUp_spinTurn {holds : Driver Bool} {elapsed : UInt32} {a : Except WaitError Unit}
    (h : (spinTurn holds budget elapsed).Does v n es (.stop a) n') : GivesUp budget es a := by
  rw [spinTurn, Driver.does_bind_iff] at h
  obtain ⟨es₁, found, n₁, es₂, rfl, -, h⟩ := h
  refine GivesUp.append_left ?_
  split at h
  · obtain rfl := Driver.Turn.stop.inj (Driver.does_pure_iff.1 h).2.1
    exact givesUp_ok ()
  · rw [Driver.does_bind_iff] at h
    obtain ⟨es₃, u, n₂, es₄, rfl, hspin, h⟩ := h
    obtain ⟨rfl, -⟩ := Driver.does_spin_iff.1 hspin
    dsimp only at h
    split at h
    · next hexhausted =>
      obtain rfl := Driver.Turn.stop.inj (Driver.does_pure_iff.1 h).2.1
      exact givesUp_timeout hexhausted (by simp)
    · cases (Driver.does_pure_iff.1 h).2.1

/-- A wait that looks in every cycle, with a record if it fails. -/
theorem givesUp_spinUntil {holds : Driver Bool} {text : Unit → String} {a : Except WaitError Unit}
    (h : (spinUntil holds budget >>= warnIfFailed text).Does v n es a n') :
    GivesUp budget es a := by
  rw [Driver.does_bind_iff] at h
  obtain ⟨es₁, outcome, n₁, es₂, rfl, hloop, h⟩ := h
  have hgives : GivesUp budget es₁ outcome := givesUp_loop (fun _ _ _ _ _ ↦ givesUp_spinTurn) hloop
  obtain rfl : a = outcome := by
    cases outcome with
    | ok u => exact (Driver.does_pure_iff.1 h).2.1
    | error e =>
      obtain ⟨-, ha, -⟩ := Driver.does_bind_pure_iff.1 h
      exact ha
  exact hgives.append_right

theorem givesUp_waitRetired {id : TransferId} (hid : id.isValid = true)
    {a : Except WaitError Unit} (h : (waitRetired id budget).Does v n es a n') :
    GivesUp budget es a := by
  rw [waitRetired, if_pos hid] at h
  exact givesUp_spinUntil h

theorem givesUp_barrier {a : Except WaitError Unit} (h : (barrier budget).Does v n es a n') :
    GivesUp budget es a :=
  givesUp_spinUntil h

end Dma

/-! ## Every operation -/

namespace Command

/-- What is wrong with what is asked for, if anything is. -/
def refusal? : Command → Option WaitError
  | waitAnyOf m _ _ => if m = ∅ then some .emptyMask else none
  | waitAny plan => if plan.devices = ∅ then some .emptyMask else none
  | waitAll plan => if plan.devices = ∅ then some .emptyMask else none
  | triggerSwEvent id => if swEventCount ≤ id then some .invalidSwEvent else none
  | triggerSwEventWait id => if swEventCount ≤ id then some .invalidSwEvent else none
  | launch _ index => if channelCount ≤ index then some .invalidChannel else none
  | channelBusy _ index => if channelCount ≤ index then some .invalidChannel else none
  | lastDone _ index => if channelCount ≤ index then some .invalidChannel else none
  | waitFor _ index id _ =>
    if channelCount ≤ index then some .invalidChannel
    else if id.number = 0 then some .invalidTransfer else none
  | waitRetired id _ => if id.number = 0 then some .invalidTransfer else none
  | _ => none

/-- The budget of a wait that may run out of time. -/
def watchdog? : Command → Option Budget
  | waitAnyOf _ .polling budget => some budget
  | waitAny plan => if plan.mode = .polling then some plan.budget else none
  | waitAll plan => if plan.mode = .polling then some plan.budget else none
  | waitDevice _ .polling => some .default
  | waitFor _ _ _ budget => some budget
  | waitRetired _ budget => some budget
  | barrier budget => some budget
  | _ => none

/-- The operation was a wait with a budget, and it has let time pass.  Only a wait for all devices
may have spent its budget at once. -/
structure TimedOut (c : Command) (es : List Event) : Prop where
  bounded : ∃ budget, c.watchdog? = some budget ∧ budget.isUnbounded = false
  delayed : 0 < EventUnit.delays es ∨ ∃ plan, c = .waitAll plan ∧ plan.SpentAtOnce es

section Paths

variable {c : Command} {d : Direction} {index : Nat} {x : Channel → Driver Answer} {e : WaitError}
  {v : Verbosity} {n n' : Nat} {es : List Event}

/-! An index that is out of range is refused, and any other one is a channel's. -/

theorem onChannel_of_le (h : channelCount ≤ index) :
    onChannel d index x = pure (.failed .invalidChannel) := by
  rw [onChannel, Channel.ofIndex, dif_neg (Nat.not_lt.2 h)]

theorem onChannel_of_lt (h : index < channelCount) :
    onChannel d index x = x ⟨d, ⟨index, h⟩⟩ := by
  rw [onChannel, Channel.ofIndex, dif_pos h]

/-- **A refused operation is its error and does nothing.** -/
theorem driver_of_refused (h : c.refusal? = some e) : c.driver = pure (.failed e) := by
  have refused {p : Prop} [Decidable p] {e' : WaitError}
      (h : (if p then some e' else none) = some e) : p ∧ e' = e := by
    simpa only [Option.ite_none_right_eq_some, Option.some.injEq] using h
  cases c with
  | waitAnyOf m mode budget =>
    obtain ⟨rfl, rfl⟩ := refused h
    rfl
  | waitAny plan =>
    obtain ⟨hnone, rfl⟩ := refused h
    rw [driver, EventUnit.waitAny, EventUnit.waitAnyOf,
      if_pos (WaitPlan.required_isEmpty_iff.2 hnone)]
    rfl
  | waitAll plan =>
    obtain ⟨hnone, rfl⟩ := refused h
    rw [driver, EventUnit.waitAll_eq_empty (WaitPlan.required_isEmpty_iff.2 hnone)]
    rfl
  | triggerSwEvent id =>
    obtain ⟨hid, rfl⟩ := refused h
    rw [driver, EventUnit.triggerSwEvent, dif_neg (Nat.not_lt.2 hid)]
    rfl
  | triggerSwEventWait id =>
    obtain ⟨hid, rfl⟩ := refused h
    rw [driver, EventUnit.triggerSwEventWait, dif_neg (Nat.not_lt.2 hid)]
    rfl
  | launch d index | channelBusy d index | lastDone d index =>
    obtain ⟨hindex, rfl⟩ := refused h
    exact onChannel_of_le hindex
  | waitFor d index id budget =>
    rw [refusal?] at h
    split at h
    · next hindex =>
      obtain rfl := Option.some.inj h
      exact onChannel_of_le hindex
    · next hindex =>
      obtain ⟨hid, rfl⟩ := refused h
      rw [driver, onChannel_of_lt (Nat.lt_of_not_le hindex), Dma.waitFor,
        if_neg fun hvalid ↦ TransferId.isValid_iff.1 hvalid hid]
      rfl
  | waitRetired id budget =>
    obtain ⟨hid, rfl⟩ := refused h
    rw [driver, Dma.waitRetired, if_neg fun hvalid ↦ TransferId.isValid_iff.1 hvalid hid]
    rfl
  | _ => cases h

/-- An operation whose answers are all of one kind does not fail. -/
theorem not_does_failed {α : Type} {y : Driver α} {f : α → Answer} (hf : ∀ a, f a ≠ .failed e) :
    ¬ (f <$> y).Does v n es (.failed e) n' := by
  rw [map_eq_pure_bind, Driver.does_bind_pure_iff]
  rintro ⟨a, ha, -⟩
  exact hf a ha.symm

theorem not_does_failed_silently {y : Driver Unit} : ¬ (silently y).Does v n es (.failed e) n' := by
  rw [silently, Driver.does_bind_pure_iff]
  rintro ⟨u, hu, -⟩
  cases hu

/-- One that may fail does if what it asks for does. -/
theorem does_of_unitResult {y : Driver (Except WaitError Unit)}
    (h : (Answer.ofUnitResult <$> y).Does v n es (.failed e) n') : y.Does v n es (.error e) n' := by
  rw [map_eq_pure_bind, Driver.does_bind_pure_iff] at h
  obtain ⟨u | e', ha, hy⟩ := h
  · obtain rfl := Answer.failed.inj ha
    exact hy
  · cases ha

theorem does_of_maskResult {y : Driver (Except WaitError EventMask)}
    (h : (Answer.ofMaskResult <$> y).Does v n es (.failed e) n') : y.Does v n es (.error e) n' := by
  rw [map_eq_pure_bind, Driver.does_bind_pure_iff] at h
  obtain ⟨e' | m, ha, hy⟩ := h
  · obtain rfl := Answer.failed.inj ha
    exact hy
  · cases ha

/-- A wait whose only budget is its watchdog. -/
theorem timedOut_of_givesUp {α : Type} {budget : Budget} (hc : c.watchdog? = some budget)
    (h : GivesUp budget es (.error e : Except WaitError α)) : e = .timeout ∧ c.TimedOut es := by
  obtain ⟨rfl, hbounded, hdelays⟩ := h e rfl
  exact ⟨rfl, ⟨budget, hc, hbounded⟩, .inl hdelays⟩

/-- **An operation that is not refused fails only when it is out of time.** -/
theorem timedOut_of_does (hc : c.refusal? = none) (h : c.driver.Does v n es (.failed e) n') :
    e = .timeout ∧ c.TimedOut es := by
  have accepted {p : Prop} [Decidable p] {e' : WaitError}
      (h : (if p then some e' else none) = none) : ¬ p := by
    simpa only [Option.ite_none_right_eq_some, ite_eq_right_iff, reduceCtorEq, imp_false] using h
  have selected {plan : WaitPlan} (h : ¬ plan.devices = ∅) : plan.required.isEmpty = false :=
    Bool.eq_false_iff.2 (mt WaitPlan.required_isEmpty_iff.1 h)
  cases c with
  | waitAnyOf m mode budget =>
    have hm : m.isEmpty = false := Bool.eq_false_iff.2 (mt EventMask.isEmpty_iff.1 (accepted hc))
    obtain ⟨hgives, hmode⟩ := EventUnit.givesUp_waitAnyOf hm (does_of_maskResult h)
    obtain rfl := hmode e rfl
    exact timedOut_of_givesUp rfl hgives
  | waitAny plan =>
    obtain ⟨hgives, hmode⟩ :=
      EventUnit.givesUp_waitAnyOf (selected (accepted hc)) (does_of_maskResult h)
    exact timedOut_of_givesUp (if_pos (hmode e rfl)) hgives
  | waitAll plan =>
    obtain ⟨rfl, hmode, hbounded, hdelayed⟩ :=
      EventUnit.givesUp_waitAll (selected (accepted hc)) (does_of_maskResult h)
    exact ⟨rfl, ⟨plan.budget, if_pos hmode, hbounded⟩,
      hdelayed.imp_right fun hspent ↦ ⟨plan, rfl, hspent⟩⟩
  | waitDevice d mode =>
    have hd : d.doneMask.isEmpty = false := by rcases d with _ | ⟨_ | _⟩ | _ <;> rfl
    obtain ⟨hgives, hmode⟩ := EventUnit.givesUp_waitAnyOf hd (does_of_maskResult h)
    obtain rfl := hmode e rfl
    exact timedOut_of_givesUp rfl hgives
  | waitFor d index id budget =>
    rw [refusal?] at hc
    split at hc
    · cases hc
    · next hindex =>
      rw [driver, onChannel_of_lt (Nat.lt_of_not_le hindex)] at h
      exact timedOut_of_givesUp rfl
        (Dma.givesUp_waitFor (TransferId.isValid_iff.2 (accepted hc)) (does_of_unitResult h))
  | waitRetired id budget =>
    exact timedOut_of_givesUp rfl
      (Dma.givesUp_waitRetired (TransferId.isValid_iff.2 (accepted hc)) (does_of_unitResult h))
  | barrier budget => exact timedOut_of_givesUp rfl (Dma.givesUp_barrier (does_of_unitResult h))
  | triggerSwEvent id =>
    have hdoes := does_of_unitResult h
    rw [EventUnit.triggerSwEvent, dif_pos (Nat.lt_of_not_le (accepted hc)),
      Driver.does_bind_pure_iff] at hdoes
    obtain ⟨u, hu, -⟩ := hdoes
    cases hu
  | triggerSwEventWait id =>
    have hdoes := does_of_maskResult h
    rw [EventUnit.triggerSwEventWait, dif_pos (Nat.lt_of_not_le (accepted hc)),
      Driver.does_bind_pure_iff] at hdoes
    obtain ⟨m, hm, -⟩ := hdoes
    cases hm
  | launch d index | channelBusy d index | lastDone d index =>
    rw [driver, onChannel_of_lt (Nat.lt_of_not_le (accepted hc))] at h
    exact absurd h (not_does_failed nofun)
  | _ => first | exact absurd h not_does_failed_silently | exact absurd h (not_does_failed nofun)

end Paths

/-- **What can go wrong.**  On any hardware, an operation that asks for something impossible is
answered with that error, and makes no access and no call of the hart.  Any other one is answered
with an error only if it is a wait that polls with a budget, and is out of time. -/
theorem run_failed {σ : Type} (p : Platform σ) (c : Command) (v : Verbosity) (n : Nat) (s : σ) :
    let r := p.run (c.driver.program v n) s
    (∀ e, c.refusal? = some e → r = ⟨[], .returned (.failed e, n) s⟩) ∧
      (c.refusal? = none → ∀ e n' s', r.outcome = .returned (.failed e, n') s' →
        e = .timeout ∧ c.TimedOut r.events) := by
  intro r
  constructor
  · intro e hrefused
    show p.run (c.driver.program v n) s = _
    rw [driver_of_refused hrefused]
    rfl
  · intro haccepted e n' s' houtcome
    exact timedOut_of_does haccepted (.of_run (congrArg (Run.mk r.events) houtcome))

/-- Poll for two devices, with one look for both. -/
def oneLook : WaitPlan :=
  .ofSettings [.device .accelerator, .device (.dma .l2ToL1)] .polling [.slice ⟨1⟩, .budget ⟨1⟩]

/-- A tile whose accelerator is done. -/
def acceleratorDone : Tile := { Tile.initial.raise Line.accDone.mask with mask := .all }

/-- The look takes the accelerator's line, and the wait is out of time before any has passed. -/
theorem not_forall_delayed :
    ¬ ∀ (c : Command) (v : Verbosity) (n : Nat) (t : Tile) (n' : Nat) (t' : Tile),
      (Tile.platform.run (c.driver.program v n) t).outcome =
          .returned (.failed .timeout, n') t' →
        0 < EventUnit.delays (Tile.platform.run (c.driver.program v n) t).events := by
  intro h
  exact absurd (h (.waitAll oneLook) none 1 acceleratorDone 1 _ rfl) (by decide)

/-- A transfer that cannot be is refused, and a wait at a tile where nothing happens is out of time
after the delay that it had. -/
theorem run_failed_initial :
    let refused := Command.waitRetired ⟨0⟩ ⟨3⟩
    let late := Command.waitAll oneLook
    refused.refusal? = some .invalidTransfer ∧ late.refusal? = none ∧
      Tile.platform.run (refused.driver.program none 5) .initial =
        ⟨[], .returned (.failed .invalidTransfer, 5) .initial⟩ ∧
      ∃ es n' t', Tile.platform.run (late.driver.program none 5) .initial =
          ⟨es, .returned (.failed .timeout, n') t'⟩ ∧
        EventUnit.delays es = 1 ∧ late.TimedOut es := by
  intro refused late
  obtain ⟨es, n', t', hrun, hdelays⟩ : ∃ es n' t',
      Tile.platform.run (late.driver.program none 5) .initial =
        ⟨es, .returned (.failed .timeout, n') t'⟩ ∧ EventUnit.delays es = 1 :=
    ⟨_, _, _, rfl, by rfl⟩
  have hlate := (run_failed Tile.platform late none 5 .initial).2 rfl .timeout n' t'
    (congrArg Run.outcome hrun)
  rw [hrun] at hlate
  exact ⟨rfl, rfl, (run_failed Tile.platform refused none 5 .initial).1 _ rfl,
    es, n', t', hrun, hdelays, hlate.2⟩

end Command
end TileEvents
