import TileEvents.Proofs.Footprint
import TileEvents.Proofs.KeepsMasks
import TileEvents.Proofs.Life
import TileEvents.Proofs.Rounds

/-!
# Freshness

A session arms the event unit, and then anything may happen to the tile before it waits: other
waits, sleeps, launches, raw accesses, lines that go up.

Whatever they were, a wait that follows brings no line that was up before the event unit was armed:
each line of its answer was raised by one of the steps, or the schedule has raised it since
(`Life.fresh`).  If none of the steps narrowed the masks, then the lines that the session waits for
are still reported when the wait begins, and wake the hart if it is to sleep.

That takes a law of one step (`TileStep.Takes.effect`), which then holds of all of them
(`Life.mem_buffer`, `Life.kept`), and that `arm` takes everything down (`EventUnit.of_returns_arm`).
-/

set_option autoImplicit false

namespace TileEvents

/-- The line belongs to entries of the schedule that have come due in between. -/
def Tile.ComesUp (t t' : Tile) (b : Nat) : Prop :=
  ∃ fired : Schedule, t.schedule.Perm (fired ++ t'.schedule) ∧ (∀ e ∈ fired, e.due ≤ t'.now) ∧
    b ∈ fired.lines

theorem Tile.Since.mem_buffer {t t' : Tile} {fired : Schedule} (h : Since t fired t') {b : Nat}
    (hb : b ∈ t'.buffer) : b ∈ t.buffer ∨ t.ComesUp t' b :=
  (EventMask.mem_union.1 (EventMask.subset_iff.1 h.buffer b hb)).imp_right
    fun hfired ↦ ⟨fired, h.perm, h.due, hfired⟩

/-! ## Steps -/

namespace TileStep

/-- The step disables lines or resets the masks. -/
def Narrows : TileStep → Prop
  | command c => c.Narrows
  | writeRegister w o value => (Event.write w o value).Narrows
  | _ => False

/-- What a step can do to a tile. -/
structure Effect (step : TileStep) (t t' : Tile) : Prop where
  /-- What is up was up before, or the step has raised it, or the schedule. -/
  mem_buffer : ∀ b, b ∈ t'.buffer →
    b ∈ t.buffer ∨ (∃ m, step = .raise m ∧ b ∈ m) ∨ t.ComesUp t' b
  kept : ¬ step.Narrows → Tile.Kept t t'

section Effect

variable {step : TileStep} {t t' : Tile}

/-- The step only drives the tile. -/
theorem Effect.of_since (h : ∃ fired, Tile.Since t fired t')
    (hkept : ¬ step.Narrows → Tile.Kept t t') : step.Effect t t' where
  mem_buffer _ hb := by
    obtain ⟨fired, hsince⟩ := h
    exact (hsince.mem_buffer hb).imp_right .inr
  kept := hkept

/-- The step touches neither the lines nor the masks. -/
theorem Effect.of_same (hbuffer : t'.buffer = t.buffer) (hmask : t'.mask = t.mask)
    (hirqMask : t'.irqMask = t.irqMask) : step.Effect t t' where
  mem_buffer _ hb := .inl (hbuffer ▸ hb)
  kept _ := .of_eq hmask hirqMask

/-- What is scheduled does not happen yet. -/
theorem Effect.of_scheduleAfter {s : Stimulus} {cycles : Nat}
    (h : t.scheduleAfter s cycles = .ok t') : step.Effect t t' := by
  rw [Tile.of_scheduleAfter h]
  exact .of_same rfl rfl rfl

/-- **A step has no other effect.** -/
theorem Takes.effect (h : step.Takes t t') : step.Effect t t' := by
  cases step with
  | command c =>
    obtain ⟨p, hp, v, n, a, n', hreturns⟩ := h
    obtain ⟨ms, -, hcompletes⟩ := Platform.completes_of_run (congrArg (Run.mk _) hreturns)
    obtain ⟨v', k, k', hdoes⟩ := hcompletes.does
    obtain ⟨hsince, hkept, -⟩ := Tile.leaves_walk hp hcompletes.walk
    exact .of_since hsince fun hwide ↦ hkept fun m hm ↦
      Command.keepsMasks hwide hdoes _ (List.mem_map_of_mem hm)
  | raise m =>
    obtain rfl := h.of_raise
    exact ⟨fun b hb ↦ (EventMask.mem_union.1 hb).imp_right fun hb ↦ .inl ⟨m, rfl, hb⟩,
      fun _ ↦ .of_eq rfl rfl⟩
  | raiseAfter m cycles => exact .of_scheduleAfter h.of_raiseAfter
  | retireAfter d index cycles =>
    obtain ⟨c, -, hschedule⟩ | ⟨-, rfl⟩ := h.of_retireAfter
    · exact .of_scheduleAfter hschedule
    · exact .of_same rfl rfl rfl
  | setClock on =>
    obtain rfl := h.of_setClock
    exact .of_same rfl rfl rfl
  | readRegister w o =>
    obtain ⟨value, hanswer⟩ := h.of_readRegister
    have hleaves := Tile.leaves_answer Tile.isHart_platform hanswer
    exact .of_since hleaves.since fun _ ↦ hleaves.kept id
  | writeRegister w o value =>
    have hleaves := Tile.leaves_answer Tile.isHart_platform h.of_writeRegister
    exact .of_since hleaves.since hleaves.kept

end Effect

end TileStep

/-! ## A whole life -/

/-- The step has raised the line, or the schedule has while it was taken. -/
def Taken.Raises (x : Taken) (b : Nat) : Prop :=
  (∃ m, x.step = .raise m ∧ b ∈ m) ∨ x.before.ComesUp x.after b

namespace Life

variable {t t' : Tile} {taken : List Taken}

/-- What is up was up before, or one of the steps has raised it. -/
theorem mem_buffer (h : Life t taken t') {b : Nat} (hb : b ∈ t'.buffer) :
    b ∈ t.buffer ∨ ∃ x ∈ taken, x.Raises b := by
  induction h with
  | rest t => exact .inl hb
  | step h _ ih =>
    rcases ih hb with hup | ⟨x', hx', hraises⟩
    · rcases h.effect.mem_buffer b hup with hup | hraises
      · exact .inl hup
      · exact .inr ⟨_, .head _, hraises⟩
    · exact .inr ⟨x', .tail _ hx', hraises⟩

/-- The masks are kept where no step narrows them. -/
theorem kept (h : Life t taken t') (hwide : ∀ x ∈ taken, ¬ x.step.Narrows) : Tile.Kept t t' := by
  induction h with
  | rest t => exact .refl t
  | step h _ ih =>
    exact (h.effect.kept (hwide _ (.head _))).trans (ih fun x hx ↦ hwide x (.tail _ hx))

end Life

/-! ## Sessions -/

namespace EventUnit

variable {p : Platform Tile} {plan : WaitPlan} {v : Verbosity} {n n' b : Nat} {t t' : Tile}
  {es : List Event} {m : EventMask}

/-- **When the event unit is armed no line is up**, and the lines of the session are reported and,
if it is to sleep, wake the hart. -/
theorem of_returns_arm (hp : Tile.IsHart p) {u : Unit}
    (h : p.Returns (arm plan) v n t u n' t') :
    t'.buffer = ∅ ∧ plan.required ⊆ t'.mask ∧
      (plan.mode = .suspend → plan.required ⊆ t'.irqMask) := by
  have hwrite := hp.registers.2
  obtain ⟨_, n₁, t₁, hclear, h⟩ := Platform.returns_bind_iff.1 h
  obtain ⟨_, n₂, t₂, henable, h⟩ := Platform.returns_bind_iff.1 h
  replace hclear := (Platform.returns_write_iff.1 hclear).2
  replace henable := (Platform.returns_write_iff.1 henable).2
  rw [hwrite] at hclear henable
  have hdown : t₁.buffer = ∅ := by
    rw [Tile.writeClear_eq hclear]
    refine EventMask.ext_mem fun b ↦ ?_
    simp only [EventMask.mem_sdiff, EventMask.mem_all, EventMask.not_mem_empty, iff_false]
    exact fun hb ↦ hb.2 (EventMask.lt_of_mem hb.1)
  obtain rfl : { t₁ with mask := t₁.mask ∪ plan.devices.eventMask } = t₂ := Except.ok.inj henable
  have hreported : plan.required ⊆ t₁.mask ∪ plan.devices.eventMask :=
    EventMask.subset_trans plan.devices.doneMask_subset_eventMask (EventMask.subset_union_right _ _)
  dsimp only at h
  split at h
  · obtain ⟨_, n₃, t₃, hirq, hreport⟩ := Platform.returns_bind_iff.1 h
    obtain ⟨-, -, rfl⟩ := hreport.unique (Platform.returns_report _ _)
    replace hirq := (Platform.returns_write_iff.1 hirq).2
    rw [hwrite] at hirq
    obtain rfl := Except.ok.inj hirq
    exact ⟨hdown, hreported, fun _ ↦ EventMask.subset_union_right _ _⟩
  · next hmode =>
    obtain ⟨-, -, rfl⟩ := h.unique (Platform.returns_report _ _)
    exact ⟨hdown, hreported, fun hsuspend ↦ absurd hsuspend hmode⟩

/-- **What a wait answers with was up at its looks.** -/
theorem exists_look_of_wait {w : Wait} (h : w.driver.Does v n es (.ok m) n') (hb : b ∈ m) :
    ∃ up, .look up ∈ es ∧ b ∈ up := by
  cases w with
  | poll k budget =>
    obtain ⟨seen, hm, hpoll⟩ := Driver.does_bind_pure_iff.1 h
    obtain rfl := Except.ok.inj hm
    exact (consumes_poll hpoll).1.exists_look hb
  | suspend k =>
    obtain ⟨seen, hm, hsuspend⟩ := Driver.does_bind_pure_iff.1 h
    obtain rfl := Except.ok.inj hm
    exact (consumes_suspend hsuspend).1.exists_look hb
  | block k mode budget =>
    obtain ⟨seen, hm, hwait⟩ := Driver.does_bind_pure_iff.1 h
    obtain rfl := Except.ok.inj hm
    exact (consumes_wait hwait).1.exists_look hb
  | anyOf k mode budget => exact (consumes_waitAnyOf h).1.exists_look hb
  | any plan => exact (consumes_waitAnyOf h).1.exists_look hb
  | device d mode => exact (consumes_waitAnyOf h).1.exists_look hb
  | all plan => exact exists_look_of_waitAll h hb

end EventUnit

/-- What is up at a look was up when the walk began, or has come up since. -/
theorem Tile.mem_of_look {p : Platform Tile} (hp : IsHart p) {t t' : Tile} {ms : List (Moment Tile)}
    (h : p.Walk t ms t') {up : EventMask} (hlook : .look up ∈ ms.map Moment.event) {b : Nat}
    (hb : b ∈ up) : b ∈ t.buffer ∨ t.ComesUp t' b := by
  obtain ⟨l, hl, he⟩ := List.mem_map.1 hlook
  obtain ⟨hreported, -⟩ := hp.of_look h hl he
  have hup : b ∈ l.before.buffer := (EventMask.mem_inter.1 (hreported ▸ hb)).1
  -- what has fired by the look has fired in the end
  obtain ⟨before, after, rfl⟩ := List.append_of_mem hl
  obtain ⟨s, hbefore, hafter⟩ := Platform.Walk.append_iff.1 h
  obtain ⟨rfl, -, -⟩ := Platform.Walk.cons_iff.1 hafter
  obtain ⟨⟨fired, hsince⟩, -⟩ := leaves_walk hp hbefore
  obtain ⟨⟨later, hsince'⟩, -⟩ := leaves_walk hp hafter
  refine (EventMask.mem_union.1 (EventMask.subset_iff.1 hsince.buffer b hup)).imp_right
    fun hfired ↦ ⟨fired ++ later, (hsince.trans hsince').perm, (hsince.trans hsince').due, ?_⟩
  rw [Schedule.lines_append]
  exact EventMask.mem_union.2 (.inl hfired)

/-- **A session brings nothing from before it.**  The event unit is armed, on any tile, then any
steps are taken, and then a wait returns.  Each line of its answer was raised by one of the steps,
or the schedule has raised it during one of them or during the wait.  And if no step disables lines
or resets the masks, then the lines that the session is for are reported when the wait begins and,
if it sleeps, they wake the hart. -/
theorem Life.fresh {p : Platform Tile} (hp : Tile.IsHart p) {plan : WaitPlan} {v : Verbosity}
    {n n' : Nat} {t₀ t₁ t₂ : Tile} {taken : List Taken}
    (harm : (p.run ((EventUnit.arm plan).program v n) t₀).outcome = .returned ((), n') t₁)
    (hlife : Life t₁ taken t₂) :
    (∀ (q : Platform Tile) (w : EventUnit.Wait) (v' : Verbosity) (k k' : Nat) (m : EventMask)
      (t₃ : Tile), Tile.IsHart q →
      (q.run (w.driver.program v' k) t₂).outcome = .returned (.ok m, k') t₃ →
      ∀ b, b ∈ m → (∃ x ∈ taken, x.Raises b) ∨ t₂.ComesUp t₃ b) ∧
    ((∀ x ∈ taken, ¬ x.step.Narrows) → plan.required ⊆ t₂.mask ∧
      (plan.mode = .suspend → plan.required ⊆ t₂.irqMask)) := by
  obtain ⟨hdown, hmask, hirqMask⟩ := EventUnit.of_returns_arm hp harm
  refine ⟨fun q w v' k k' m t₃ hq hwait b hb ↦ ?_, fun hwide ↦ ?_⟩
  · obtain ⟨ms, -, hcompletes⟩ := Platform.completes_of_run (congrArg (Run.mk _) hwait)
    obtain ⟨_, _, _, hdoes⟩ := hcompletes.does
    obtain ⟨up, hlook, hup⟩ := EventUnit.exists_look_of_wait hdoes hb
    rcases Tile.mem_of_look hq hcompletes.walk hlook hup with hbuffer | hcomes
    · rcases hlife.mem_buffer hbuffer with hbefore | hraised
      · rw [hdown] at hbefore
        exact absurd hbefore (EventMask.not_mem_empty b)
      · exact .inl hraised
    · exact .inr hcomes
  · have hkept := hlife.kept hwide
    exact ⟨EventMask.subset_trans hmask hkept.mask,
      fun hmode ↦ EventMask.subset_trans (hirqMask hmode) hkept.irqMask⟩

/-- A tile whose accelerator was done some time ago. -/
def stale : Tile := { Tile.initial with buffer := Line.accDone.mask }

/-- A transfer is started, and the hart sleeps until a timer runs out. -/
def meanwhile : List TileStep :=
  [.command (.launch .l2ToL1 0), .retireAfter .l2ToL1 0 5, .raiseAfter Line.timer0.mask 3,
    .command (.suspend Line.timer0.mask)]

/-- The accelerator is selected and was done, but what the wait brings is the transfer. -/
theorem fresh_stale :
    ∃ t₁ t₂ t₃ taken, taken.map Taken.step = meanwhile ∧ Life t₁ taken t₂ ∧
      (Tile.platform.run ((EventUnit.arm EventUnit.bothDone).program none 0) stale).outcome =
        .returned ((), 0) t₁ ∧
      (Tile.platform.run ((EventUnit.waitAny EventUnit.bothDone).program none 1) t₂).outcome =
        .returned (.ok (Line.dma .l2ToL1 .done).mask, 0) t₃ ∧
      (∀ b, b ∈ (Line.dma .l2ToL1 .done).mask → (∃ x ∈ taken, x.Raises b) ∨ t₂.ComesUp t₃ b) ∧
      EventUnit.bothDone.required ⊆ t₂.mask ∧ EventUnit.bothDone.required ⊆ t₂.irqMask := by
  obtain ⟨t₁, rows, t₂, t₃, harm, hplay, hwait⟩ : ∃ t₁ rows t₂ t₃,
      (Tile.platform.run ((EventUnit.arm EventUnit.bothDone).program none 0) stale).outcome =
        .returned ((), 0) t₁ ∧
      play (TileStep.run Tile.platform none) meanwhile t₁ = ⟨rows, .finished t₂⟩ ∧
      (Tile.platform.run ((EventUnit.waitAny EventUnit.bothDone).program none 1) t₂).outcome =
        .returned (.ok (Line.dma .l2ToL1 .done).mask, 0) t₃ := ⟨_, _, _, _, rfl, rfl, rfl⟩
  obtain ⟨taken, hsteps, hlife⟩ := Life.of_play Tile.isHart_platform hplay
  obtain ⟨hfresh, hmasks⟩ := Life.fresh Tile.isHart_platform harm hlife
  have hwide : ∀ x ∈ taken, ¬ x.step.Narrows := by
    have key : ∀ step ∈ meanwhile, ¬ step.Narrows := by
      simp [meanwhile, TileStep.Narrows, Command.Narrows]
    exact fun x hx ↦ key _ (hsteps ▸ List.mem_map_of_mem hx)
  obtain ⟨hmask, hirqMask⟩ := hmasks hwide
  exact ⟨t₁, t₂, t₃, taken, hsteps, hlife, harm, hwait,
    hfresh _ (.any EventUnit.bothDone) none 1 0 _ t₃ Tile.isHart_platform hwait, hmask, hirqMask rfl⟩

end TileEvents
