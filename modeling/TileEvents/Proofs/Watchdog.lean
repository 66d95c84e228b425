import TileEvents.Proofs.Arrivals
import TileEvents.Proofs.Rounds
import TileEvents.Proofs.Spending

/-!
# In time for a polling wait

The budget of a polling wait is a watchdog, and it may only bite when a device is late.  But the
wait charges each round in full, also one that ends early because a line has come up, so it may give
up before its budget has passed on the clock.  How much too early is limited: only a round that
takes a line ends early, and the last line ends the wait.  So a tile on which all lines are up when
the budget, but for one slice for each line, has passed, is waited for (`waitAll_in_time`), however
the lines are spread over the rounds.
-/

set_option autoImplicit false

namespace TileEvents
namespace EventUnit

section Runs

variable {plan : WaitPlan} {t t' : Tile} {ms : List (Moment Tile)}

/-- A line that a wait misses in the end was not up at its last look, so it was not up in the
beginning and nothing that was due by then has raised it. -/
theorem late_of_missing {required : EventMask} {v : Verbosity} {n n' b : Nat}
    {a : Except WaitError Unit × Tally} (hwalk : Tile.platform.Walk t ms t')
    (h : (pollRounds required plan).Does v n (ms.map Moment.event) a n')
    (hreported : required ⊆ t.mask) (hb : b ∈ a.2.missing required)
    (hdelays : 1 < delays (ms.map Moment.event)) :
    ¬ b ∈ t.buffer ∧ ∀ e ∈ t.schedule, b ∈ e.stimulus.lines →
      t.now + pollQuantum.toNat * (delays (ms.map Moment.event) - 1) < e.due := by
  obtain ⟨hgains, -⟩ := polled_pollRounds h
  obtain ⟨hc, -⟩ := hgains.of_empty
  obtain ⟨uses, huses, hevents⟩ := areUses_pollRounds h.begins
  obtain ⟨earlier, up, later, hes, hlater, hunseen⟩ := exists_last_look_pollRounds h
  obtain ⟨hrequired, hmissing⟩ := EventMask.mem_sdiff.1 hb
  have hmode : ∀ m ∈ ms, m.event.OfMode .polling := fun m hm ↦
    huses.ofMode _ (hevents ▸ List.mem_map_of_mem hm)
  have hnever : ∀ m ∈ ms, ¬ b ∈ m.event.clears := fun m hm hclears ↦
    hmissing (hc.mem_iff.2 ⟨m.event, List.mem_map_of_mem hm, hclears⟩)
  -- the run up to the last look
  obtain ⟨ms₁, ms', rfl, rfl, hms'⟩ := List.map_eq_append_iff.1 hes
  obtain ⟨look, ms₂, rfl, hlook, rfl⟩ := List.map_eq_cons_iff.1 hms'
  obtain ⟨hwalk₁, -⟩ := hwalk.split
  have hmode₁ : ∀ m ∈ ms₁, m.event.OfMode .polling := fun m hm ↦ hmode m (by simp [hm])
  have hticked := Tile.ticked_of_walk hwalk₁ hmode₁
  have hlast : delays ((ms₁ ++ look :: ms₂).map Moment.event) ≤
      delays (ms₁.map Moment.event) + 1 := by
    simpa [hlook] using hlater
  have hdown : ¬ b ∈ look.before.buffer := by
    intro hup
    have hseen := Tile.reported_of_look hwalk (m := look) (by simp) hlook
    refine hunseen b hb (hseen ▸ EventMask.mem_inter.2 ⟨hup, ?_⟩)
    rw [hticked.mask]
    exact EventMask.subset_iff.1 hreported b hrequired
  -- what is up or due by then would have been up at that look
  obtain ⟨hstays, hcomes⟩ :=
    Tile.mem_buffer_of_due hwalk₁ hmode₁ fun m hm ↦ hnever m (by simp [hm])
  refine ⟨fun hup ↦ hdown (hstays hup), fun e he hlines ↦ Nat.lt_of_not_le fun hdue ↦ hdown ?_⟩
  refine hcomes (by omega) e he hlines ?_
  have hpassed := Nat.mul_le_mul_left pollQuantum.toNat (Nat.sub_le_of_le_add hlast)
  rw [hticked.now]
  omega

/-- More slices than lines: there is a slice, and a budget. -/
theorem bounded_of_lt_slices {k : Nat} (h : k < plan.slices) :
    plan.slice.isUnbounded = false ∧ plan.budget.isUnbounded = false := by
  have hslice : plan.slice.isUnbounded = false := by
    rw [Budget.isUnbounded_eq_false_iff, Nat.pos_iff_ne_zero]
    intro hzero
    rw [WaitPlan.slices, hzero, Nat.div_zero] at h
    exact absurd h (Nat.not_lt_zero k)
  refine ⟨hslice, ?_⟩
  rw [Budget.isUnbounded_eq_false_iff, Nat.pos_iff_ne_zero]
  intro hzero
  have hnone : plan.slices ≤ 0 := (WaitPlan.slices_le_iff hslice).2 (by omega)
  omega

/-- A wait that times out has let a slice pass for each that the budget has more than there are
lines, and some more. -/
theorem Spent.passed {es : List Event} {rounds : List Round}
    (h : Spent plan es (.error .timeout) rounds) (hslices : plan.required.size < plan.slices)
    (hrequired : plan.required.isEmpty = false) :
    (plan.slices - plan.required.size) * plan.slice.rounds.toNat < delays es := by
  obtain ⟨hslice, -⟩ := bounded_of_lt_slices hslices
  have hspent := (h.timeout rfl).2
  have hsize := EventMask.size_pos_iff.2 hrequired
  have hbudget : (plan.slices - 1) * plan.slice.rounds.toNat < plan.budget.rounds.toNat := by
    rw [← Nat.not_le, ← WaitPlan.slices_le_iff hslice]
    omega
  have hsum : plan.slices - 1 = plan.slices - plan.required.size + (plan.required.size - 1) := by
    omega
  rw [hsum, Nat.add_mul] at hbudget
  omega

/-- Each line comes up, if it is not up, before all but one slice for each line has passed. -/
def InTime (plan : WaitPlan) (t : Tile) : Prop :=
  ∀ b, b ∈ plan.required → b ∈ t.buffer ∨
    ∃ e ∈ t.schedule, b ∈ e.stimulus.lines ∧ e.due ≤ t.now +
      pollQuantum.toNat * ((plan.slices - plan.required.size) * plan.slice.rounds.toNat)

/-- A wait that is in time for its lines does not time out. -/
theorem answer_of_inTime (hmode : plan.mode = .polling) (hreported : plan.required ⊆ t.mask)
    (hslices : plan.required.size < plan.slices) (htime : InTime plan t)
    (hrequired : plan.required.isEmpty = false) {v : Verbosity} {n n' : Nat}
    {answer : Except WaitError EventMask} {rounds : List Round} (hwalk : Tile.platform.Walk t ms t')
    (h : (waitAllRounds plan).Does v n (ms.map Moment.event) (answer, rounds) n') :
    answer = .ok plan.required := by
  obtain ⟨hslice, hbudget⟩ := bounded_of_lt_slices hslices
  have hspent := spent_waitAllRounds hmode hbudget hslice hrequired h
  obtain ⟨hempty, -, -⟩ | ⟨es, outcome, tally, n₁, records, rfl, -, hrecords, hpath⟩ :=
    does_waitAllRounds h
  · exact absurd (hrequired.symm.trans hempty) Bool.false_ne_true
  obtain ⟨hasleep, -⟩ | ⟨-, hrounds, hes⟩ := hpath
  · simp [hmode] at hasleep
  obtain ⟨hgains, ⟨hok, hall⟩ | ⟨htimeout, hmissing⟩⟩ := polled_pollRounds hrounds
  · obtain rfl : outcome = .ok () := hok
    exact congrArg Except.ok (EventMask.subset_antisymm hgains.of_empty.2 hall)
  -- a line is missing, but the last look must have found it up
  obtain rfl : outcome = .error .timeout := htimeout
  have hpassed := hspent.passed hslices hrequired
  obtain ⟨ms₁, ms₂, rfl, rfl, rfl⟩ := List.map_eq_append_iff.1 hes
  obtain ⟨s, hwalk₁, -⟩ := Platform.Walk.append_iff.1 hwalk
  rw [List.map_append, delays_append, hrecords.delays_eq, Nat.add_zero] at hpassed
  rw [← EventMask.sdiff_isEmpty_iff, Bool.not_eq_true, EventMask.isEmpty_eq_false_iff] at hmissing
  obtain ⟨b, hb⟩ := hmissing
  have hone : 0 < (plan.slices - plan.required.size) * plan.slice.rounds.toNat :=
    Nat.mul_pos (by omega) (Budget.isUnbounded_eq_false_iff.1 hslice)
  obtain ⟨hdown, hlate⟩ := late_of_missing hwalk₁ hrounds hreported hb (by omega)
  obtain ⟨e, he, hlines, hdue⟩ := (htime b (EventMask.mem_sdiff.1 hb).1).resolve_left hdown
  have hafter := hlate e he hlines
  have hmono := Nat.mul_le_mul_left pollQuantum.toNat (Nat.le_sub_one_of_lt hpassed)
  omega

/-- **A polling wait is in time for lines that come up early enough.**  If its budget has more
slices than there are lines, and each line is up or comes up before all but one slice for each line
has passed, then the wait ends with all of the lines, unless the tile breaks off; it never times
out. -/
theorem waitAll_in_time (hmode : plan.mode = .polling) (hreported : plan.required ⊆ t.mask)
    (hslices : plan.required.size < plan.slices)
    (htime : InTime plan t) (v : Verbosity) {n : Nat} (hn : plan.budget.rounds.toNat ≤ n) :
    (∃ n' t', (Tile.platform.run ((waitAll plan).program v n) t).outcome =
        .returned (if plan.required.isEmpty then .error .emptyMask else .ok plan.required, n') t') ∨
      ∃ f action t', (Tile.platform.run ((waitAll plan).program v n) t).outcome = .faulted f ∧
        Tile.platform.answer action t' = .error f := by
  cases hrequired : plan.required.isEmpty with
  | true =>
    rw [waitAll_eq_empty hrequired]
    exact .inl ⟨n, t, rfl⟩
  | false =>
    obtain ⟨hslice, hbudget⟩ := bounded_of_lt_slices hslices
    have hends : (waitAll plan).Concludes v n fun _ _ ↦ True :=
      (concludes_waitAllRounds hmode hbudget hslice hn).bind fun _ _ _ ↦
        Driver.concludes_pure trivial
    rcases hends.run Tile.platform t with ⟨⟨answer, n'⟩, t', -, houtcome⟩ | hfault
    · obtain ⟨ms, hevents, hcompletes⟩ := Platform.completes_of_run (congrArg (Run.mk _) houtcome)
      obtain ⟨v', n₁, n₂, hdoes⟩ := hcompletes.does
      obtain ⟨⟨answer', rounds⟩, rfl, hall⟩ := Driver.does_bind_pure_iff.1 hdoes
      obtain rfl :=
        answer_of_inTime hmode hreported hslices htime hrequired hcompletes.walk hall
      exact .inl ⟨n', t', houtcome⟩
    · exact .inr hfault

end Runs

/-- Poll for the accelerator and one front-end of the data mover, three looks in slices of one. -/
def threeLooks : WaitPlan where
  devices := .ofList [.accelerator, .dma .l2ToL1]
  mode := .polling
  budget := ⟨3⟩
  slice := ⟨1⟩

/-- The accelerator is done when the wait begins, and the data mover by the end of the first of the
slices that are left after that. -/
theorem in_time_halfDone :
    threeLooks.mode = .polling ∧ threeLooks.required ⊆ halfDone.mask ∧
      threeLooks.required.size < threeLooks.slices ∧ InTime threeLooks halfDone ∧
      threeLooks.budget.rounds.toNat ≤ 3 ∧ ∃ n' t',
        (Tile.platform.run ((waitAll threeLooks).program none 3) halfDone).outcome =
          .returned (.ok threeLooks.required, n') t' := by
  have htime : InTime threeLooks halfDone := by
    have key : ∀ b, b < 32 → b ∈ threeLooks.required → b ∈ halfDone.buffer ∨
        ∃ e ∈ halfDone.schedule, b ∈ e.stimulus.lines ∧ e.due ≤ 10 := by decide
    exact fun b hb ↦ key b (EventMask.lt_of_mem hb) hb
  have hslices : threeLooks.required.size < threeLooks.slices := by decide
  obtain ⟨answer, n', t', hrun⟩ : ∃ answer n' t',
      (Tile.platform.run ((waitAll threeLooks).program none 3) halfDone).outcome =
        .returned (answer, n') t' := ⟨_, _, _, rfl⟩
  obtain ⟨n'', t'', h⟩ | ⟨f, action, t'', h, -⟩ := waitAll_in_time (t := halfDone) rfl (by decide)
    hslices htime none (Nat.le_refl 3)
  · exact ⟨rfl, by decide, hslices, htime, Nat.le_refl 3, n'', t'', h⟩
  · simp [hrun] at h

end EventUnit
end TileEvents
