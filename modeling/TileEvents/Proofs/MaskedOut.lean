import TileEvents.Proofs.Interrupted
import TileEvents.Proofs.Pays
import TileEvents.Proofs.Rounds
import TileEvents.Proofs.SoundSleep
import TileEvents.Proofs.Spending

/-!
# Lines that are not reported

A line can be up without being reported, and then no look finds it.  So no wait ever takes it down
(`Wait.keeps_unreported`), and a wait for all of several devices that needs it is in vain, whatever
is up and whatever will come up (`InVain`).

A wait that polls spends its budget then.  One that sleeps may be woken by the line again and again,
as it makes the line wake the hart, but each time the hart wakes an entry of the schedule is gone.
So in the end there is nothing left that could wake it, and to be put to sleep then breaks off.
-/

set_option autoImplicit false

namespace TileEvents

namespace EventUnit

section Paths

variable {mode : WaitMode} {requested : EventMask} {v : Verbosity} {n n' b : Nat} {es : List Event}
  {e : Event}

/-- What uses of a way to block take down was up at a look. -/
theorem AreUses.exists_look (h : AreUses mode requested es) (he : e ∈ es) (hb : b ∈ e.clears) :
    ∃ up, .look up ∈ es ∧ b ∈ up := by
  obtain ⟨uses, huses, rfl⟩ := h
  obtain ⟨u, hu, he⟩ := List.mem_flatMap.1 he
  obtain ⟨horderly, hrecords⟩ := huses.orderly hu
  rcases List.mem_append.1 he with he | he
  · cases horderly.ofMode e he with
    | takeDown m =>
      obtain ⟨before, after, hsplit⟩ := List.append_of_mem he
      obtain ⟨-, earlier, up, rfl, rfl⟩ := horderly.guarded before m after hsplit
      have hlook : .look up ∈ u.events := by simp [hsplit]
      exact ⟨up, List.mem_flatMap.2 ⟨u, hu, List.mem_append_left _ hlook⟩,
        (EventMask.mem_inter.1 hb).1⟩
    | look up => exact absurd hb (EventMask.not_mem_empty b)
    | spin => exact absurd hb (EventMask.not_mem_empty b)
    | waking m => exact absurd hb (EventMask.not_mem_empty b)
    | wake m => exact absurd hb (EventMask.not_mem_empty b)
    | suspend => exact absurd hb (EventMask.not_mem_empty b)
    | report s text => exact absurd hb (EventMask.not_mem_empty b)
  · rw [(hrecords.quiet e he).2] at hb
    exact absurd hb (EventMask.not_mem_empty b)

/-- **What a wait takes down was up at one of its looks.** -/
theorem Wait.exists_look {w : Wait} (h : w.driver.Begins v n es) (he : e ∈ es)
    (hb : b ∈ e.clears) : ∃ up, .look up ∈ es ∧ b ∈ up := by
  by_cases hall : ∃ plan, w = .all plan
  · obtain ⟨plan, rfl⟩ := hall
    cases hmode : (Wait.all plan).mode with
    | polling =>
      obtain ⟨es, records, rfl, huses, hrecords⟩ := areUses_waitAll_polling hmode h
      rcases List.mem_append.1 he with he | he
      · obtain ⟨up, hlook, hup⟩ := huses.exists_look he hb
        exact ⟨up, List.mem_append_left _ hlook, hup⟩
      · rw [(hrecords.quiet e he).2] at hb
        exact absurd hb (EventMask.not_mem_empty b)
    | suspend =>
      obtain huses | ⟨rounds, t, n', records, hrounds, rfl, hrecords⟩ :=
        begins_waitAll_asleep hmode h
      · exact huses.exists_look he hb
      · -- the closing write takes down what the rounds have seen
        obtain ⟨hconsumes, -⟩ := consumes_suspendRounds hrounds
        have hrequired : b ∈ plan.required := by
          rcases List.mem_append.1 he with he | he
          · exact hconsumes.mem_iff.2 ⟨e, he, hb⟩
          · rcases List.mem_cons.1 he with rfl | he
            · exact hb
            · rw [(hrecords.quiet e he).2] at hb
              exact absurd hb (EventMask.not_mem_empty b)
        obtain ⟨up, hlook, hup⟩ := hconsumes.exists_look hrequired
        exact ⟨up, List.mem_append_left _ hlook, hup⟩
  · exact (areUses_driver (fun plan hw ↦ hall ⟨plan, hw⟩) h).exists_look he hb

/-- **How a wait for all of some devices answers**: with all of their lines or, if it polls, that
its time is up. -/
theorem answer_waitAll {plan : WaitPlan} (hrequired : plan.required.isEmpty = false)
    {answer : Except WaitError EventMask} (h : (waitAll plan).Does v n es answer n') :
    answer = .ok plan.required ∨ plan.mode = .polling ∧ answer = .error .timeout := by
  obtain ⟨⟨answer, log⟩, rfl, h⟩ := Driver.does_bind_pure_iff.1 h
  obtain ⟨hempty, -⟩ | ⟨rounds, outcome, t, n₁, records, hanswer, -, -, hrounds⟩ :=
    does_waitAllRounds h
  · exact absurd hempty (Bool.eq_false_iff.1 hrequired)
  obtain rfl : answer = outcome.map (fun _ ↦ t.total) := hanswer
  obtain ⟨-, hrounds, rfl, rfl⟩ | ⟨hmode, hrounds, rfl⟩ := hrounds
  · exact .inl (congrArg Except.ok (consumes_suspendRounds hrounds).2)
  · obtain ⟨hgains, ⟨houtcome, hall⟩ | ⟨houtcome, -⟩⟩ := polled_pollRounds hrounds
    · obtain rfl : outcome = .ok () := houtcome
      exact .inl (congrArg Except.ok (EventMask.subset_antisymm hgains.of_empty.2 hall))
    · obtain rfl : outcome = .error .timeout := houtcome
      exact .inr ⟨hmode, rfl⟩

end Paths
end EventUnit

namespace Tile

variable {t t' : Tile} {ms : List (Moment Tile)}

/-- Something has fired by the time that the hart wakes. -/
theorem length_lt_of_suspend (h : t.suspend = .ok t') :
    t'.schedule.length < t.schedule.length := by
  obtain ⟨due, hdue, hnow, hpasses⟩ := passes_suspend h
  obtain ⟨⟨e, he, -, rfl⟩, -⟩ := Schedule.nextEdge?_eq_some_iff.1 hdue
  rw [hpasses.schedule.length_eq, hnow]
  exact Schedule.length_dueAfter_lt he (Nat.le_max_right _ _)

/-- No answer of a tile adds to its schedule, and one that wakes the hart takes away from it. -/
theorem length_of_answer {action : Action} {reply : action.Reply}
    (h : platform.answer action t = .ok (reply, t')) :
    t'.schedule.length + (if (Event.ofReply action reply).isSuspend then 1 else 0) ≤
      t.schedule.length := by
  cases hsleeps : (Event.ofReply action reply).isSuspend with
  | true =>
    cases action with
    | suspend => exact length_lt_of_suspend (Platform.answer_suspend_iff.1 h)
    | _ => exact nomatch hsleeps
  | false =>
    obtain ⟨⟨fired, hsince⟩, -⟩ := leaves_answer isHart_platform h
    have hlength := hsince.perm.length_eq
    rw [List.length_append] at hlength
    exact hlength ▸ Nat.le_add_left _ _

/-- **The hart wakes at most as often as something is scheduled.** -/
theorem wakes_le (h : platform.Walk t ms t') :
    (ms.map Moment.event).countP Event.isSuspend + t'.schedule.length ≤ t.schedule.length := by
  induction h with
  | rest t => exact Nat.le_of_eq (Nat.zero_add _)
  | step h hrest ih =>
    have hstep := length_of_answer h
    rw [List.map_cons, List.countP_cons]
    dsimp only
    omega

end Tile

namespace EventUnit

section Runs

variable {p : Platform Tile} {t t' : Tile} {v : Verbosity} {n : Nat} {past : List (Moment Tile)}
  {w : Wait} {rest : Program (Except WaitError EventMask × Nat)}

/-- What a look of a wait finds was reported before the wait. -/
theorem Wait.mem_mask_of_look (hp : Tile.IsHart p)
    (h : p.Reaches (w.driver.program v n) t past rest t') {up : EventMask}
    (hlook : .look up ∈ past.map Moment.event) {b : Nat} (hb : b ∈ up) : b ∈ t.mask := by
  obtain ⟨m, hm, hevent⟩ := List.mem_map.1 hlook
  obtain ⟨hup, -⟩ := hp.of_look h.walk hm hevent
  rw [← hp.mask_before h.walk (ofWait_of_reaches h) hm]
  rw [← hup] at hb
  exact (EventMask.mem_inter.1 hb).2

/-- **A line that is not reported is left alone**: it is not taken down, and it is up after a moment
if it was up before or an edge has fired. -/
theorem Wait.keeps_unreported (hp : Tile.IsHart p)
    (h : p.Reaches (w.driver.program v n) t past rest t') {b : Nat} (hb : ¬ b ∈ t.mask) :
    ∀ m ∈ past, ¬ b ∈ m.before.mask ∧ ¬ b ∈ m.event.clears ∧
      (b ∈ m.after.buffer ↔ b ∈ m.before.buffer ∨ b ∈ Tile.arrivals m) := by
  intro m hm
  have hwait := Wait.ofWait_of_reaches h
  have hkept : ¬ b ∈ m.event.clears := by
    intro hclears
    obtain ⟨up, hlook, hup⟩ := Wait.exists_look h.begins (List.mem_map_of_mem hm) hclears
    exact hb (mem_mask_of_look hp h hlook hup)
  refine ⟨?_, hkept, ?_⟩
  · rwa [hp.mask_before h.walk hwait hm]
  · rw [(hp.waitedAt h.walk hm (hwait m hm)).latches.mem_iff]
    exact and_iff_left hkept

end Runs

/-! ## Waits in vain -/

/-- A wait that sleeps calls the hart to sleep and for nothing else. -/
theorem calls_eq_sleeps {es : List Event} (h : ∀ e ∈ es, e.OfMode .suspend) :
    calls es = es.countP Event.isSuspend := by
  refine List.countP_congr fun e he ↦ ?_
  cases h e he <;> exact Iff.rfl

/-- What becomes of a wait for all devices that can never have all of them. -/
structure InVain (plan : WaitPlan) (t : Tile) : Prop where
  /-- Whichever hart it runs on, it does not return the lines. -/
  not_ok : ∀ {p : Platform Tile}, Tile.IsHart p → ∀ v n lines k t',
    (p.run ((waitAll plan).program v n) t).outcome ≠ .returned (.ok lines, k) t'
  /-- If it polls, its time runs out, or the hardware breaks off. -/
  times_out : plan.mode = .polling → plan.budget.isUnbounded = false →
    ∀ {p : Platform Tile}, Tile.IsHart p → ∀ v n, plan.budget.rounds.toNat ≤ n →
      let r := p.run ((waitAll plan).program v n) t
      (∃ k t', r.outcome = .returned (.error .timeout, k) t') ∨
        ∃ why, r.outcome = .faulted why ∧ p.BreaksOff why
  /-- If it sleeps, it wakes at most as often as something is scheduled, and then the hardware
  breaks off. -/
  breaks_off : plan.mode = .suspend → ∀ v n, t.schedule.length < n →
    let r := Tile.platform.run ((waitAll plan).program v n) t
    r.events.countP Event.isSuspend ≤ t.schedule.length ∧
      ∃ why, r.outcome = .faulted why ∧ Tile.platform.BreaksOff why

section Masked

variable {plan : WaitPlan} {t t' : Tile} {p : Platform Tile} {v : Verbosity} {n k : Nat}

/-- **A wait that needs a line that is not reported returns only when its time is up.** -/
theorem answer_of_masked (hp : Tile.IsHart p) (hmasked : ¬ plan.required ⊆ t.mask)
    {answer : Except WaitError EventMask}
    (h : (p.run ((waitAll plan).program v n) t).outcome = .returned (answer, k) t') :
    plan.mode = .polling ∧ answer = .error .timeout := by
  have hrequired : plan.required.isEmpty = false := by
    rw [Bool.eq_false_iff]
    intro hempty
    rw [EventMask.isEmpty_iff.1 hempty] at hmasked
    exact hmasked (EventMask.empty_subset _)
  obtain ⟨past, rest, s', hreaches, hevents, -⟩ :=
    p.exists_reaches_run ((waitAll plan).program v n) t
  have hdoes : (waitAll plan).Does v n (past.map Moment.event) answer k := by
    rw [← hevents]
    exact .of_run (congrArg (Run.mk _) h)
  refine (answer_waitAll hrequired hdoes).resolve_left ?_
  rintro rfl
  refine hmasked (EventMask.subset_iff.2 fun b hb ↦ ?_)
  obtain ⟨up, hlook, hup⟩ := exists_look_of_waitAll hdoes hb
  exact Wait.mem_mask_of_look (w := .all plan) hp hreaches hlook hup

/-- A wait that sleeps for a line that is not reported has the hardware break off. -/
theorem breaks_off_of_masked (hmode : plan.mode = .suspend) (hmasked : ¬ plan.required ⊆ t.mask)
    (hn : t.schedule.length < n) :
    let r := Tile.platform.run ((waitAll plan).program v n) t
    r.events.countP Event.isSuspend ≤ t.schedule.length ∧
      ∃ why, r.outcome = .faulted why ∧ Tile.platform.BreaksOff why := by
  intro r
  obtain ⟨past, rest, t', hreaches, hevents, hends⟩ :=
    Tile.platform.exists_reaches_run ((waitAll plan).program v n) t
  have hwakes := Tile.wakes_le hreaches.walk
  have hofMode : ∀ e ∈ past.map Moment.event, e.OfMode plan.mode :=
    ofMode_driver (w := .all plan) hreaches.begins
  rw [hmode] at hofMode
  have hsleeps := calls_eq_sleeps hofMode
  obtain ⟨left, hcalls, hpays⟩ := hreaches.pays (pays_waitAll hmode v n)
  refine ⟨?_, ?_⟩
  · rw [hevents]
    omega
  · -- it cannot have ended, and there are more calls than wakes
    generalize houtcome : (Tile.platform.run ((waitAll plan).program v n) t).outcome = o at hends
    cases hends with
    | done a =>
      obtain ⟨hpolling, -⟩ := answer_of_masked Tile.isHart_platform hmasked houtcome
      exact nomatch hmode.symm.trans hpolling
    | fault why => exact hpays.elim
    | exhausted =>
      obtain rfl : left = 0 := hpays
      omega
    | broken h => exact ⟨_, rfl, _, _, h⟩

/-- **A wait for a line that is not reported is in vain.** -/
theorem inVain_of_masked (hslice : plan.slice.isUnbounded = false)
    (hmasked : ¬ plan.required ⊆ t.mask) : InVain plan t where
  not_ok hp v n lines k t' h := nomatch (answer_of_masked hp hmasked h).2
  times_out hmode hbudget p hp v n hn := by
    have hconcludes : (waitAll plan).Concludes v n fun _ _ ↦ True :=
      Driver.Concludes.bind (concludes_waitAllRounds hmode hbudget hslice hn) fun _ _ _ ↦
        Driver.concludes_pure trivial
    obtain ⟨⟨answer, k⟩, t', -, houtcome⟩ | ⟨why, action, t', houtcome, hwhy⟩ := hconcludes.run p t
    · obtain ⟨-, rfl⟩ := answer_of_masked hp hmasked houtcome
      exact .inl ⟨k, t', houtcome⟩
    · exact .inr ⟨why, houtcome, action, t', hwhy⟩
  breaks_off hmode v n hn := breaks_off_of_masked hmode hmasked hn

end Masked

/-- **A wait is never satisfied by a line that is not reported.**

A tile may be in any state.  If a plan needs a line that is not reported there, a wait for all of
its devices is in vain.  And whatever wait runs there, up to any point it takes down no line that is
not reported: such a line changes only where an edge fires, and then it goes up. -/
theorem waitAll_masked_out (t : Tile) :
    (∀ before mode after,
      let plan := WaitPlan.ofSettings before mode after
      ¬ plan.required ⊆ t.mask → InVain plan t) ∧
    ∀ {p : Platform Tile}, Tile.IsHart p → ∀ (w : Wait) v n past rest t',
      p.Reaches (w.driver.program v n) t past rest t' → ∀ b, ¬ b ∈ t.mask → ∀ m ∈ past,
        ¬ b ∈ m.before.mask ∧ ¬ b ∈ m.event.clears ∧
          (b ∈ m.after.buffer ↔ b ∈ m.before.buffer ∨ b ∈ Tile.arrivals m) :=
  ⟨fun before mode after hmasked ↦
      inVain_of_masked (WaitPlan.ofSettings_slice before mode after) hmasked,
    fun hp _ _ _ _ _ _ h _ hb ↦ Wait.keeps_unreported hp h hb⟩

/-- Only the accelerator is reported.  It is done, and the data mover will be, twice. -/
def accReported : Tile :=
  { halfDone with
    mask := Line.accDone.mask
    schedule := [⟨5, .edge (Line.dma .l2ToL1 .done).mask⟩,
      ⟨9, .edge (Line.dma .l2ToL1 .done).mask⟩] }

/-- The data mover wakes the hart twice, and is never seen. -/
theorem waitAll_masked_out_accReported :
    ¬ bothDone.required ⊆ accReported.mask ∧ accReported.schedule.length < 3 ∧
      ∃ es why, Tile.platform.run ((waitAll bothDone).program none 3) accReported =
          ⟨es, .faulted why⟩ ∧
        es.countP Event.isSuspend = 2 ∧ Tile.platform.BreaksOff why ∧
        ∀ e ∈ es, ¬ (Line.dma .l2ToL1 .done).position ∈ e.clears := by
  have hmasked : ¬ bothDone.required ⊆ accReported.mask := by decide
  obtain ⟨es, why, hrun, hwakes⟩ : ∃ es why,
      Tile.platform.run ((waitAll bothDone).program none 3) accReported = ⟨es, .faulted why⟩ ∧
        es.countP Event.isSuspend = 2 :=
    ⟨_, _, rfl, rfl⟩
  obtain ⟨hplans, hkept⟩ := waitAll_masked_out accReported
  have hvain : InVain bothDone accReported :=
    hplans [.device .accelerator, .device (.dma .l2ToL1)] .suspend [] hmasked
  obtain ⟨-, why', hfault, hbreaks⟩ := hvain.breaks_off rfl none 3 (by decide)
  rw [hrun] at hfault
  obtain rfl := Outcome.faulted.inj hfault
  refine ⟨hmasked, by decide, es, why, hrun, hwakes, hbreaks, ?_⟩
  obtain ⟨past, rest, t', hreaches, hevents, -⟩ :=
    Tile.platform.exists_reaches_run ((waitAll bothDone).program none 3) accReported
  rw [hrun] at hevents
  obtain rfl : es = past.map Moment.event := hevents
  intro e he
  obtain ⟨m, hm, rfl⟩ := List.mem_map.1 he
  exact (hkept Tile.isHart_platform (.all bothDone) none 3 past rest t' hreaches _ (by decide) m
    hm).2.1

end EventUnit

end TileEvents
