import TileEvents.Proofs.Concludes
import TileEvents.Proofs.Consumption
import TileEvents.Proofs.Polling
import TileEvents.Proofs.Uses
import TileEvents.Tile.Hardware

/-!
# What a polling wait spends

A polling wait for all devices has a budget of looks.  It spends it in slices, one for each round,
and a round that takes something ends early and is charged in full all the same.  So the looks and
delays that happen are at most the budget, and how many are lost to early rounds is a matter of
counting: a round lets all of its slice pass, or it takes a line that was missing, and there are
only so many of those (`paid_pollRound`).

A wait that times out has therefore let its whole budget pass but for one slice for each line that
it took (`Spends.timeout`), and it has used every slice that the budget covers.

A wait that has as many calls of the hart left as its budget comes to its end, whatever the
hardware replies (`concludes_pollRounds`).
-/

set_option autoImplicit false

namespace TileEvents

/-- How many slices cover the budget. -/
def WaitPlan.slices (plan : WaitPlan) : Nat :=
  (plan.budget.rounds.toNat + (plan.slice.rounds.toNat - 1)) / plan.slice.rounds.toNat

theorem WaitPlan.slices_le_iff {plan : WaitPlan} (hslice : plan.slice.isUnbounded = false)
    {k : Nat} : plan.slices ≤ k ↔ plan.budget.rounds.toNat ≤ k * plan.slice.rounds.toNat := by
  rw [Budget.isUnbounded_eq_false_iff] at hslice
  rw [slices, ← Nat.lt_succ_iff, Nat.div_lt_iff_lt_mul hslice, Nat.succ_mul]
  omega

/-- What a round that begins when `elapsed` looks are charged may take. -/
def WaitPlan.allowance (plan : WaitPlan) (elapsed : UInt32) : Nat :=
  min plan.slice.rounds.toNat (plan.budget.rounds.toNat - elapsed.toNat)

namespace EventUnit

/-! ## Coming to an end -/

section Ends

variable {v : Verbosity} {n : Nat} {m required : EventMask} {budget : Budget} {plan : WaitPlan}

theorem concludes_take (m : EventMask) : (take m).Concludes v n fun _ n' ↦ n' = n := by
  have hlook : (observe m).Concludes v n fun _ n' ↦ n' = n :=
    Driver.Concludes.bind (Driver.Concludes.bind (Driver.concludes_read _ _) fun _ _ hn ↦
      Driver.concludes_pure hn) fun _ _ hn ↦ Driver.concludes_pure hn
  refine hlook.bind fun seen n₁ hn ↦ ?_
  subst hn
  split
  · exact Driver.concludes_pure rfl
  · exact Driver.Concludes.bind (Driver.concludes_write _ _ _) fun _ _ hn ↦
      Driver.concludes_pure hn

theorem concludes_pollTurn {elapsed : UInt32}
    (helapsed : elapsed.toNat < budget.rounds.toNat) :
    (pollTurn m budget elapsed).Concludes v (n + 1) fun turn n' ↦
      match turn with
      | .again elapsed' => elapsed'.toNat = elapsed.toNat + 1 ∧
          elapsed'.toNat < budget.rounds.toNat ∧ n' = n
      | .stop _ => n ≤ n' := by
  refine Driver.Concludes.bind (concludes_take m) fun seen n₁ hn ↦ ?_
  subst hn
  split
  · refine Driver.Concludes.bind (Driver.concludes_spin _) fun _ n₂ hn ↦ ?_
    subst hn
    dsimp only
    split
    · exact Driver.Concludes.bind (Driver.concludes_report _ _) fun _ n₃ hn ↦
        Driver.concludes_pure (Nat.le_of_eq hn.symm)
    · next hleft =>
      have hcount := toNat_addSaturating_one helapsed
      rw [Budget.isExhausted_iff] at hleft
      exact Driver.concludes_pure ⟨hcount, by omega, rfl⟩
  · exact Driver.Concludes.bind (Driver.concludes_report _ _) fun _ n₃ hn ↦
      Driver.concludes_pure (by omega)

/-- A poll with a budget comes to its end, and calls the hart no more often than the budget. -/
theorem concludes_poll (hbudget : budget.isUnbounded = false) (hn : budget.rounds.toNat ≤ n) :
    (poll m budget).Concludes v n fun _ n' ↦ n ≤ n' + budget.rounds.toNat := by
  refine Driver.concludes_loop (descends_pollTurn m budget)
    (I := fun elapsed k ↦ elapsed.toNat < budget.rounds.toNat ∧ n ≤ k + elapsed.toNat) ?_ ?_
  · rintro elapsed k ⟨helapsed, hk⟩
    obtain ⟨k, rfl⟩ : ∃ j, k = j + 1 := ⟨k - 1, by omega⟩
    refine (concludes_pollTurn helapsed).mono fun turn n' h ↦ ?_
    cases turn with
    | again elapsed' => exact ⟨h.2.1, by omega⟩
    | stop seen =>
      have hleft : k ≤ n' := h
      show n ≤ n' + budget.rounds.toNat
      omega
  · exact ⟨Budget.isUnbounded_eq_false_iff.1 hbudget, Nat.le_add_right n _⟩

theorem concludes_reportRound (r : Round) :
    (reportRound r).Concludes v n fun _ n' ↦ n' = n := by
  rw [reportRound]
  split
  · exact Driver.concludes_pure rfl
  · exact Driver.concludes_report _ _

theorem concludes_pollRound {c : Charged} (hbudget : plan.budget.isUnbounded = false)
    (hslice : plan.slice.isUnbounded = false)
    (helapsed : c.elapsed.toNat < plan.budget.rounds.toNat)
    (hn : plan.budget.rounds.toNat ≤ c.elapsed.toNat + n) :
    (pollRound required plan c).Concludes v n fun turn n' ↦
      ∀ c', turn = .again c' → c'.elapsed.toNat < plan.budget.rounds.toNat ∧
        plan.budget.rounds.toNat ≤ c'.elapsed.toNat + n' := by
  obtain ⟨limit, hround, hlimit⟩ := Budget.exists_round? plan.slice helapsed
  have hbounded := Budget.isUnbounded_of_round? hslice helapsed hround
  rw [pollRound]
  dsimp only
  rw [hround]
  refine Driver.Concludes.bind (concludes_poll hbounded (by omega)) fun seen n₁ hn₁ ↦ ?_
  refine Driver.Concludes.bind (concludes_reportRound _) fun _ n₂ hn₂ ↦ ?_
  split
  · exact Driver.concludes_pure fun c' h ↦ by simp at h
  · split
    · exact Driver.Concludes.bind (Driver.concludes_report _ _) fun _ n₃ _ ↦
        Driver.concludes_pure fun c' h ↦ by simp at h
    · next hleft =>
      have hcount := Budget.toNat_addSaturating_of_not_exhausted hbudget (Bool.eq_false_iff.2 hleft)
      rw [Budget.isExhausted_iff] at hleft
      refine Driver.concludes_pure fun c' h ↦ ?_
      obtain rfl := Driver.Turn.again.inj h
      exact ⟨by dsimp only; omega, by dsimp only; omega⟩

/-- **The rounds of a polling wait come to their end**, if the hart may be called as often as the
budget says. -/
theorem concludes_pollRounds (hbudget : plan.budget.isUnbounded = false)
    (hslice : plan.slice.isUnbounded = false) (hn : plan.budget.rounds.toNat ≤ n) :
    (pollRounds required plan).Concludes v n fun _ _ ↦ True := by
  refine Driver.concludes_loop (descends_pollRound required plan)
    (I := fun c k ↦ c.elapsed.toNat < plan.budget.rounds.toNat ∧
      plan.budget.rounds.toNat ≤ c.elapsed.toNat + k) ?_ ?_
  · rintro c k ⟨helapsed, hk⟩
    refine (concludes_pollRound hbudget hslice helapsed hk).mono fun turn n' h ↦ ?_
    cases turn with
    | again c' => exact h c' rfl
    | stop a => trivial
  · exact ⟨Budget.isUnbounded_eq_false_iff.1 hbudget, by simpa using hn⟩

theorem concludes_waitAllRounds (hmode : plan.mode = .polling)
    (hbudget : plan.budget.isUnbounded = false) (hslice : plan.slice.isUnbounded = false)
    (hn : plan.budget.rounds.toNat ≤ n) :
    (waitAllRounds plan).Concludes v n fun _ _ ↦ True := by
  cases hrequired : plan.required.isEmpty with
  | true =>
    rw [waitAllRounds_empty hrequired]
    exact Driver.concludes_pure trivial
  | false =>
    rw [waitAllRounds_polling hmode hrequired]
    refine Driver.Concludes.bind (concludes_pollRounds hbudget hslice hn) fun a n₁ _ ↦ ?_
    obtain ⟨outcome, t⟩ := a
    cases outcome with
    | ok u =>
      exact Driver.Concludes.bind (Driver.concludes_report _ _) fun _ _ _ ↦
        Driver.concludes_pure trivial
    | error e => exact Driver.concludes_pure trivial

end Ends

/-! ## Counting what is spent -/

section Paths

variable {v : Verbosity} {n n' : Nat} {es : List Event} {required : EventMask} {plan : WaitPlan}

/-- The round polled, and not for ever. -/
def Round.Bounded (r : Round) : Prop := ∃ limit, r.limit = some limit ∧ limit.isUnbounded = false

/-- **A round lets all it may take pass, or it takes a line that was missing.**  Either way it has
paid for itself, if a line that is not missing any more is worth a slice. -/
theorem paid_pollRound {c : Charged} (hslice : plan.slice.isUnbounded = false)
    (helapsed : c.elapsed.toNat < plan.budget.rounds.toNat)
    {turn : Driver.Turn Charged (Except WaitError Unit × Tally)}
    (h : (pollRound required plan c).Does v n es turn n') :
    ∃ r : Round, turn = c.verdict required plan r ∧ r.Bounded ∧
      looks es ≤ plan.allowance c.elapsed ∧ delays es ≤ plan.allowance c.elapsed ∧
      plan.allowance c.elapsed + ((c.tally.add r).missing required).size * plan.slice.rounds.toNat ≤
        delays es + (c.tally.missing required).size * plan.slice.rounds.toNat := by
  obtain ⟨limit, seen, n₁, polled, records, hround, hpoll, rfl, hrecords, hturn⟩ :=
    does_pollRound h
  obtain ⟨limit', hround', hlimit⟩ := Budget.exists_round? plan.slice helapsed
  obtain rfl : limit = limit' := Option.some.inj (hround.symm.trans hround')
  have hbounded := Budget.isUnbounded_of_round? hslice helapsed hround
  obtain ⟨hlooks, hdelays, hnothing⟩ := count_poll hbounded hpoll
  obtain ⟨-, hseen⟩ := consumes_poll hpoll
  refine ⟨_, hturn, ⟨limit, rfl, hbounded⟩, ?_⟩
  rw [looks_append, hrecords.looks_eq, delays_append, hrecords.delays_eq, WaitPlan.allowance,
    ← hlimit, Tally.missing_add]
  refine ⟨hlooks, hdelays, ?_⟩
  dsimp only
  cases hnone : seen.isEmpty with
  | true =>
    rw [hnothing hnone, EventMask.isEmpty_iff.1 hnone, EventMask.sdiff_empty]
    exact Nat.le_refl _
  | false =>
    have hlt := EventMask.size_sdiff_lt hseen hnone
    have hslices := Nat.mul_le_mul_right plan.slice.rounds.toNat hlt
    rw [Nat.succ_mul] at hslices
    omega

/-- What a polling wait spends from one of its states on, and how it ends. -/
structure Spends (required : EventMask) (plan : WaitPlan) (c : Charged) (es : List Event)
    (a : Except WaitError Unit × Tally) : Prop where
  slices_le : a.2.rounds.length ≤ plan.slices
  bounded : ∀ r ∈ a.2.rounds, r ∈ c.tally.rounds ∨ r.Bounded
  looks_le : c.elapsed.toNat + looks es ≤ plan.budget.rounds.toNat
  delays_le : c.elapsed.toNat + delays es ≤ plan.budget.rounds.toNat
  timeout : a.1 = .error .timeout → a.2.rounds.length = plan.slices ∧
    plan.budget.rounds.toNat + (a.2.missing required).size * plan.slice.rounds.toNat ≤
      c.elapsed.toNat + delays es +
        (c.tally.missing required).size * plan.slice.rounds.toNat

/-- So far each round was charged a full slice, and there is budget left. -/
structure Charged.Within (c : Charged) (plan : WaitPlan) : Prop where
  charged : c.elapsed.toNat = c.tally.rounds.length * plan.slice.rounds.toNat
  left : c.elapsed.toNat < plan.budget.rounds.toNat

/-- There is a slice for the next round. -/
theorem Charged.Within.length_lt {c : Charged} (hc : c.Within plan)
    (hslice : plan.slice.isUnbounded = false) : c.tally.rounds.length < plan.slices := by
  rw [← Nat.not_le, WaitPlan.slices_le_iff hslice, ← hc.charged]
  exact Nat.not_le.2 hc.left

/-- A round that goes on is charged a slice, and there is budget left after it. -/
theorem Charged.Within.again {c c' : Charged} {r : Round} (hc : c.Within plan)
    (hbudget : plan.budget.isUnbounded = false) (h : c.verdict required plan r = .again c') :
    c'.tally = c.tally.add r ∧ c'.elapsed.toNat = c.elapsed.toNat + plan.slice.rounds.toNat ∧
      c'.Within plan := by
  obtain ⟨hleft, rfl⟩ := Charged.verdict_again h
  have hcount := Budget.toNat_addSaturating_of_not_exhausted hbudget hleft
  rw [Bool.eq_false_iff, ne_eq, Budget.isExhausted_iff, hcount] at hleft
  rw [Budget.isUnbounded_eq_false_iff] at hbudget
  refine ⟨rfl, hcount, ?_, ?_⟩
  · rw [hcount, hc.charged]
    exact (Nat.succ_mul _ _).symm
  · dsimp only
    omega

/-- The last round of a wait that times out has used up the budget. -/
theorem Charged.Within.timeout {c : Charged} {r : Round} {t : Tally} (hc : c.Within plan)
    (hslice : plan.slice.isUnbounded = false)
    (h : c.verdict required plan r = .stop (.error .timeout, t)) :
    (c.tally.rounds.length + 1 = plan.slices) ∧
      plan.budget.rounds.toNat = c.elapsed.toNat + plan.allowance c.elapsed := by
  obtain ⟨-, hturn⟩ | ⟨-, ⟨hexhausted, -⟩ | ⟨-, hturn⟩⟩ := c.verdict_cases required plan r
  · simp [hturn] at h
  · rw [Budget.isExhausted_addSaturating_iff] at hexhausted
    have hlt := hc.length_lt hslice
    have hle : plan.slices ≤ c.tally.rounds.length + 1 := by
      rw [WaitPlan.slices_le_iff hslice, Nat.succ_mul, ← hc.charged]
      exact hexhausted.2
    have hleft := hc.left
    rw [WaitPlan.allowance]
    omega
  · simp [hturn] at h

/-- **What the rounds of a polling wait spend.** -/
theorem spends_pollRounds (hbudget : plan.budget.isUnbounded = false)
    (hslice : plan.slice.isUnbounded = false) {a : Except WaitError Unit × Tally}
    (h : (pollRounds required plan).Does v n es a n') :
    Spends required plan ⟨.empty, 0⟩ es a := by
  have key : Charged.Within ⟨.empty, 0⟩ plan → Spends required plan ⟨.empty, 0⟩ es a := by
    refine Driver.does_loop
      (R := fun c es a ↦ c.Within plan → Spends required plan c es a) ?_ ?_ h
    · rintro c n es ⟨outcome, t⟩ n' h hc
      obtain ⟨r, hturn, hr, hlooks, hdelays, hpaid⟩ := paid_pollRound hslice hc.left h
      obtain rfl : t = c.tally.add r := Charged.verdict_stop hturn.symm
      have hlt := hc.length_lt hslice
      have hleft := hc.left
      rw [WaitPlan.allowance] at hlooks hdelays
      refine ⟨hlt, fun r' hr' ↦ ?_, by omega, by omega, ?_⟩
      · rcases List.mem_cons.1 hr' with rfl | hr'
        · exact .inr hr
        · exact .inl hr'
      · rintro rfl
        obtain ⟨hlength, hall⟩ := hc.timeout hslice hturn.symm
        exact ⟨hlength, by dsimp only; omega⟩
    · rintro c n es c' n' es' a h hrest hc
      obtain ⟨r, hturn, hr, hlooks, hdelays, hpaid⟩ := paid_pollRound hslice hc.left h
      obtain ⟨htally, hcount, hc'⟩ := hc.again hbudget hturn.symm
      obtain ⟨hrounds, hbounded, hlooks', hdelays', htimeout⟩ := hrest hc'
      have hleft := hc'.left
      rw [htally] at hbounded htimeout
      rw [WaitPlan.allowance] at hlooks hdelays hpaid
      refine ⟨hrounds, fun r' hr' ↦ ?_, ?_, ?_, fun ha ↦ ?_⟩
      · rcases hbounded r' hr' with hr' | hr'
        · rcases List.mem_cons.1 hr' with rfl | hr'
          · exact .inr hr
          · exact .inl hr'
        · exact .inr hr'
      · rw [looks_append]
        omega
      · rw [delays_append]
        omega
      · obtain ⟨hlength, hspent⟩ := htimeout ha
        rw [delays_append]
        exact ⟨hlength, by omega⟩
  exact key ⟨by simp [Tally.empty], Budget.isUnbounded_eq_false_iff.1 hbudget⟩

/-- Nothing is consumed of lines that were up at no look. -/
theorem Consumes.eq_empty {m k : EventMask} (h : Consumes es m) (hm : m ⊆ k)
    (hunseen : ∀ up, .look up ∈ es → (up ∩ k).isEmpty = true) : m = ∅ := by
  refine EventMask.ext_mem fun b ↦ ⟨fun hb ↦ ?_, fun hb ↦ absurd hb (EventMask.not_mem_empty b)⟩
  obtain ⟨up, hup, hbup⟩ := h.exists_look hb
  rw [← EventMask.isEmpty_iff.1 (hunseen up hup)]
  exact EventMask.mem_inter.2 ⟨hbup, EventMask.subset_iff.1 hm b hb⟩

/-- What a polling wait that has come to its end has spent. -/
structure Spent (plan : WaitPlan) (es : List Event) (answer : Except WaitError EventMask)
    (rounds : List Round) : Prop where
  /-- It has looked, taken lines down, and let `pollQuantum` cycles pass at a time. -/
  ofMode : ∀ e ∈ es, e.OfMode .polling
  slices_le : rounds.length ≤ plan.slices
  bounded : ∀ r ∈ rounds, r.Bounded
  looks_le : looks es ≤ plan.budget.rounds.toNat
  delays_le : delays es ≤ plan.budget.rounds.toNat
  /-- A wait that times out has used all slices, and has lost at most one for each line but one. -/
  timeout : answer = .error .timeout → rounds.length = plan.slices ∧
    plan.budget.rounds.toNat ≤
      delays es + (plan.required.size - 1) * plan.slice.rounds.toNat
  /-- It has lost nothing if no line that it waits for was up at any look. -/
  unseen : answer = .error .timeout →
    (∀ up, .look up ∈ es → (up ∩ plan.required).isEmpty = true) →
      delays es = plan.budget.rounds.toNat

theorem spent_waitAllRounds (hmode : plan.mode = .polling)
    (hbudget : plan.budget.isUnbounded = false) (hslice : plan.slice.isUnbounded = false)
    (hrequired : plan.required.isEmpty = false) {answer : Except WaitError EventMask}
    {rounds : List Round} (h : (waitAllRounds plan).Does v n es (answer, rounds) n') :
    Spent plan es answer rounds := by
  obtain ⟨hempty, -, -⟩ | ⟨es, outcome, t, n₁, records, rfl, rfl, hrecords, hpath⟩ :=
    does_waitAllRounds h
  · exact absurd (hrequired.symm.trans hempty) Bool.false_ne_true
  obtain ⟨hasleep, -⟩ | ⟨-, hrounds, rfl⟩ := hpath
  · simp [hmode] at hasleep
  have hspends := spends_pollRounds hbudget hslice hrounds
  obtain ⟨hgains, hend⟩ := polled_pollRounds hrounds
  obtain ⟨hc, htotal⟩ := hgains.of_empty
  obtain ⟨uses, huses, hevents⟩ := areUses_pollRounds hrounds.begins
  have hlooks := hspends.looks_le
  have hdelays := hspends.delays_le
  -- a wait that times out misses a line
  have htimeout : outcome.map (fun _ ↦ t.total) = .error .timeout →
      0 < (t.missing plan.required).size ∧ t.rounds.length = plan.slices ∧
        plan.budget.rounds.toNat + (t.missing plan.required).size * plan.slice.rounds.toNat ≤
          delays es + plan.required.size * plan.slice.rounds.toNat := by
    intro ha
    obtain ⟨hok, -⟩ | ⟨herror, hnot⟩ := hend
    · obtain rfl : outcome = .ok () := hok
      simp [Except.map] at ha
    · refine ⟨EventMask.size_pos_iff.2 ?_, ?_⟩
      · rwa [Bool.eq_false_iff, ne_eq, Tally.missing, EventMask.sdiff_isEmpty_iff]
      · simpa [Tally.missing, Tally.empty] using hspends.timeout herror
  refine ⟨?_, ?_, ?_, ?_, ?_, fun ha ↦ ?_, fun ha hunseen ↦ ?_⟩
  · rw [List.forall_mem_append, hevents]
    exact ⟨huses.ofMode, hrecords.ofMode⟩
  · simpa using hspends.slices_le
  · intro r hr
    simpa [Tally.empty] using hspends.bounded r (by simpa using hr)
  · simpa [hrecords.looks_eq] using hlooks
  · simpa [hrecords.delays_eq] using hdelays
  · obtain ⟨hmissing, hlength, hspent⟩ := htimeout ha
    have hone := Nat.le_mul_of_pos_left plan.slice.rounds.toNat hmissing
    rw [List.length_reverse, delays_append, hrecords.delays_eq, Nat.sub_one_mul]
    exact ⟨hlength, by omega⟩
  · obtain ⟨-, -, hspent⟩ := htimeout ha
    have hnone := hc.eq_empty htotal fun up hup ↦ hunseen up (List.mem_append_left records hup)
    rw [Tally.missing, show t.total = ∅ from hnone, EventMask.sdiff_empty] at hspent
    rw [delays_append, hrecords.delays_eq]
    have hle : delays es ≤ plan.budget.rounds.toNat := by simpa using hdelays
    omega

end Paths

/-- **The accounts of a polling wait for all devices.**  Whatever settings its plan was made with,
and whatever the hardware replies, a wait with a budget comes to its end within that many calls of
the hart, unless the hardware breaks off; and then its accounts are in order. -/
theorem waitAll_accounts {σ : Type} (p : Platform σ) (before after : List PlanSetting)
    (hbudget : (WaitPlan.ofSettings before .polling after).budget.isUnbounded = false)
    (hrequired : (WaitPlan.ofSettings before .polling after).required.isEmpty = false)
    (v : Verbosity) {n : Nat}
    (hn : (WaitPlan.ofSettings before .polling after).budget.rounds.toNat ≤ n) (s : σ) :
    let plan := WaitPlan.ofSettings before .polling after
    let r := p.run ((waitAllRounds plan).program v n) s
    (∃ answer rounds n' s', r.outcome = .returned ((answer, rounds), n') s' ∧
        Spent plan r.events answer rounds) ∨
      ∃ f action s', r.outcome = .faulted f ∧ p.answer action s' = .error f := by
  intro plan r
  have hmode : plan.mode = .polling := WaitPlan.ofSettings_mode before .polling after
  have hslice : plan.slice.isUnbounded = false := WaitPlan.ofSettings_slice before .polling after
  rcases (concludes_waitAllRounds hmode hbudget hslice hn).run p s with
    ⟨⟨⟨answer, rounds⟩, n'⟩, s', -, houtcome⟩ | hfault
  · have hdoes : (waitAllRounds plan).Does v n r.events (answer, rounds) n' :=
      .of_run (congrArg (Run.mk r.events) houtcome)
    exact .inl ⟨answer, rounds, n', s', houtcome,
      spent_waitAllRounds hmode hbudget hslice hrequired hdoes⟩
  · exact .inr hfault

/-- Poll for two devices, at most three looks in slices of two. -/
def twoSlices : WaitPlan :=
  .ofSettings [.device .accelerator, .device (.dma .l2ToL1)] .polling [.slice ⟨2⟩, .budget ⟨3⟩]

/-- At a tile where nothing ever happens, all of the budget passes. -/
theorem accounts_twoSlices :
    twoSlices.budget.isUnbounded = false ∧ twoSlices.required.isEmpty = false ∧
      twoSlices.budget.rounds.toNat ≤ 3 ∧ ∃ es rounds n' s',
        Tile.platform.run ((waitAllRounds twoSlices).program none 3) .initial =
          ⟨es, .returned ((.error .timeout, rounds), n') s'⟩ ∧
        delays es = 3 ∧ Spent twoSlices es (.error .timeout) rounds := by
  obtain ⟨es, rounds, n', s', hrun, hdelays⟩ : ∃ es rounds n' s',
      Tile.platform.run ((waitAllRounds twoSlices).program none 3) .initial =
        ⟨es, .returned ((.error .timeout, rounds), n') s'⟩ ∧ delays es = 3 :=
    ⟨_, _, _, _, rfl, by rfl⟩
  have hevents : (Tile.platform.run ((waitAllRounds twoSlices).program none 3) .initial).events =
      es := congrArg Run.events hrun
  have houtcome := congrArg Run.outcome hrun
  obtain ⟨answer, rounds', n'', s'', h, hspent⟩ | ⟨f, action, s'', h, -⟩ :=
    waitAll_accounts Tile.platform [.device .accelerator, .device (.dma .l2ToL1)]
      [.slice ⟨2⟩, .budget ⟨3⟩] rfl rfl none (Nat.le_refl 3) .initial
  · have hvalue := h.symm.trans houtcome
    simp only [Outcome.returned.injEq, Prod.mk.injEq] at hvalue
    obtain ⟨⟨⟨rfl, rfl⟩, -⟩, -⟩ := hvalue
    refine ⟨rfl, rfl, Nat.le_refl 3, es, rounds', n', s', hrun, hdelays, ?_⟩
    exact hevents ▸ hspent
  · have hvalue := h.symm.trans houtcome
    simp at hvalue

end EventUnit
end TileEvents
