import TileEvents.Proofs.Firing
import TileEvents.Proofs.Latch
import TileEvents.Proofs.Polling
import TileEvents.Proofs.Uses
import TileEvents.Tile.Hardware

/-!
# What comes up while a tile is waited on

The schedule of a tile says what will come up on it.  In a run of a wait each moment lets some
entries of the schedule fire (`Tile.WaitedAt`), and their lines come up then (`Tile.arrivals`), so
the buffer of a tile latches (`Tile.WaitedAt.latches`).  Over a whole run the entries that are gone
are those whose lines have come up (`Tile.exists_fired_walk`).

While a wait polls, time passes at its delays only, and after each of them nothing is left of the
schedule that is due (`Tile.ticked_of_walk`).  So a line that the wait does not take comes up when
it is due and stays up (`Tile.mem_buffer_of_due`).
-/

set_option autoImplicit false

namespace TileEvents

/-- The lines that are made to wake the hart. -/
def Event.woken : Event → EventMask
  | write .eventUnit o value =>
    if o = EventUnit.Register.irqMaskOr.offset then ⟨value⟩ else ∅
  | _ => ∅

namespace Tile

open EventUnit (delays)

/-- The lines that come up at a moment: those of the entries that are gone after it. -/
def arrivals (m : Moment Tile) : EventMask :=
  Schedule.lines <| m.before.schedule.filter fun e ↦
    decide (m.after.schedule.count e < m.before.schedule.count e)

theorem arrivals_of_perm {m : Moment Tile} {fired : Schedule}
    (h : m.before.schedule.Perm (fired ++ m.after.schedule)) : arrivals m = fired.lines := by
  have hmem : ∀ e, e ∈ m.before.schedule ∧
      m.after.schedule.count e < m.before.schedule.count e ↔ e ∈ fired := by
    intro e
    rw [h.count_eq, List.count_append, ← List.count_pos_iff, ← List.count_pos_iff,
      h.count_eq, List.count_append]
    omega
  refine EventMask.ext_mem fun b ↦ ?_
  rw [arrivals, Schedule.mem_lines, Schedule.mem_lines]
  simp only [List.mem_filter, decide_eq_true_eq, hmem]

/-- Nothing comes up unless an entry fires. -/
theorem arrivals_of_same {m : Moment Tile} (h : m.after.schedule = m.before.schedule) :
    arrivals m = ∅ :=
  have hperm : m.before.schedule.Perm ([] ++ m.after.schedule) := .of_eq h.symm
  arrivals_of_perm hperm

/-- A write to the clearing register changes nothing but the buffer and the log of such writes. -/
theorem writeClear_eq {t t' : Tile} {m : EventMask}
    (h : platform.write .eventUnit EventUnit.Register.bufferClear.offset m.bits t = .ok t') :
    t' = { t with buffer := t.buffer \ m, clears := t.clears ++ [m] } := by
  replace h : (if t.clears.length < clearLogCapacity then
      .ok { t with buffer := t.buffer \ m, clears := t.clears ++ [m] }
      else .error (Fault.clearLogFull m)) = Except.ok t' := h
  split at h
  · exact (Except.ok.inj h).symm
  · simp at h

theorem of_writeClear {t t' : Tile} {m : EventMask}
    (h : platform.write .eventUnit EventUnit.Register.bufferClear.offset m.bits t = .ok t') :
    t'.schedule = t.schedule ∧ t'.buffer = t.buffer \ m := by
  rw [writeClear_eq h]
  exact ⟨rfl, rfl⟩

/-! ## Moment by moment -/

/-- These entries fire at a moment: they are gone after it, and what was up or comes up by them is
up, unless it is taken down. -/
structure FiresAt (m : Moment Tile) (fired : Schedule) : Prop where
  perm : m.before.schedule.Perm (fired ++ m.after.schedule)
  buffer : m.after.buffer = (m.before.buffer ∪ fired.lines) \ m.event.clears

section Walks

variable {p : Platform Tile} {t t' : Tile} {ms : List (Moment Tile)} {m : Moment Tile}

theorem FiresAt.of_fired {fired : Schedule} (h : Fired m.before fired m.after)
    (hclears : m.event.clears = ∅) : FiresAt m fired :=
  ⟨h.1, by rw [hclears, EventMask.sdiff_empty, h.2]⟩

theorem FiresAt.of_same (hschedule : m.after.schedule = m.before.schedule)
    (hbuffer : m.after.buffer = m.before.buffer \ m.event.clears) : FiresAt m [] :=
  ⟨.of_eq hschedule.symm, by rw [Schedule.lines_nil, EventMask.union_empty, hbuffer]⟩

/-- A look finds the reported lines that are up, and leaves the tile as it is. -/
theorem IsHart.of_look (hp : IsHart p) (h : p.Walk t ms t') (hm : m ∈ ms) {up : EventMask}
    (he : m.event = .look up) : m.before.reported = up ∧ m.after = m.before := by
  have answer : p.read .eventUnit _ m.before = .ok (up.bits, m.after) :=
    h.answer_of_event hm (a := .read .eventUnit _) (r := up.bits) he
  rw [hp.registers.1] at answer
  obtain ⟨hup, hafter⟩ := Prod.mk.inj (Except.ok.inj answer)
  exact ⟨congrArg EventMask.mk hup, hafter.symm⟩

/-- So does the question which lines wake the hart. -/
theorem IsHart.of_waking (hp : IsHart p) (h : p.Walk t ms t') (hm : m ∈ ms) {waking : EventMask}
    (he : m.event = .read .eventUnit EventUnit.Register.irqMask.offset waking.bits) :
    m.before.irqMask = waking ∧ m.after = m.before := by
  have answer : p.read .eventUnit _ m.before = .ok (waking.bits, m.after) :=
    h.answer_of_event hm (a := .read .eventUnit _) (r := waking.bits) he
  rw [hp.registers.1] at answer
  obtain ⟨hwaking, hafter⟩ := Prod.mk.inj (Except.ok.inj answer)
  exact ⟨congrArg EventMask.mk hwaking, hafter.symm⟩

theorem IsHart.of_wake (hp : IsHart p) (h : p.Walk t ms t') (hm : m ∈ ms) {lines : EventMask}
    (he : m.event = .write .eventUnit EventUnit.Register.irqMaskOr.offset lines.bits) :
    m.after = { m.before with irqMask := m.before.irqMask ∪ lines } := by
  have answer := Platform.answer_write_iff.1
    (h.answer_of_event hm (a := .write .eventUnit _ lines.bits) (r := ()) he)
  rw [hp.registers.2] at answer
  exact (Except.ok.inj answer).symm

theorem IsHart.of_takeDown (hp : IsHart p) (h : p.Walk t ms t') (hm : m ∈ ms) {lines : EventMask}
    (he : m.event = .takeDown lines) :
    m.after = { m.before with
      buffer := m.before.buffer \ lines, clears := m.before.clears ++ [lines] } := by
  have answer := Platform.answer_write_iff.1
    (h.answer_of_event hm (a := .write .eventUnit _ lines.bits) (r := ()) he)
  rw [hp.registers.2] at answer
  exact writeClear_eq answer

/-- What a moment of a wait does to a tile, whichever hart drives it: some entries fire or none, the
reported lines stay the same, and lines are only added to those that wake the hart. -/
structure WaitedAt (m : Moment Tile) : Prop where
  fires : ∃ fired, FiresAt m fired
  mask : m.after.mask = m.before.mask
  irqMask : m.after.irqMask = m.before.irqMask ∪ m.event.woken

theorem WaitedAt.of_same (h : m.after = m.before) (hwoken : m.event.woken = ∅)
    (hclears : m.event.clears = ∅) : WaitedAt m where
  fires := ⟨[], .of_same (by rw [h]) (by rw [h, hclears, EventMask.sdiff_empty])⟩
  mask := by rw [h]
  irqMask := by rw [h, hwoken, EventMask.union_empty]

theorem WaitedAt.of_passes (h : Passes m.before m.after) (hwoken : m.event.woken = ∅)
    (hclears : m.event.clears = ∅) : WaitedAt m where
  fires := ⟨_, .of_fired h.fired hclears⟩
  mask := h.mask
  irqMask := by rw [h.irqMask, hwoken, EventMask.union_empty]

/-- **What a wait does to a tile**, moment by moment. -/
theorem IsHart.waitedAt (hp : IsHart p) (h : p.Walk t ms t') (hm : m ∈ ms)
    (hwait : m.event.OfWait) : WaitedAt m := by
  obtain ⟨before, e, after⟩ := m
  cases hwait with
  | look up => exact .of_same (hp.of_look h hm rfl).2 rfl rfl
  | takeDown m =>
    obtain rfl : after =
        { before with buffer := before.buffer \ m, clears := before.clears ++ [m] } :=
      hp.of_takeDown h hm rfl
    exact ⟨⟨[], .of_same rfl rfl⟩, rfl, (EventMask.union_empty _).symm⟩
  | waking m => exact .of_same (hp.of_waking h hm rfl).2 rfl rfl
  | wake m =>
    obtain rfl : after = { before with irqMask := before.irqMask ∪ m } := hp.of_wake h hm rfl
    exact ⟨⟨[], .of_same rfl (EventMask.sdiff_empty _).symm⟩, rfl, rfl⟩
  | spin cycles =>
    have answer := h.answer_of_event hm (a := .spin cycles) (r := ()) rfl
    rcases hp with rfl | rfl
    · exact .of_passes (passes_advance (Platform.answer_spin_iff.1 answer)).2 rfl rfl
    · exact .of_same (Except.ok.inj (Platform.answer_spin_iff.1 answer)).symm rfl rfl
  | suspend =>
    have answer := h.answer_of_event hm (a := .suspend) (r := ()) rfl
    rcases hp with rfl | rfl
    · obtain ⟨due, -, -, hpasses⟩ := passes_suspend (Platform.answer_suspend_iff.1 answer)
      exact .of_passes hpasses rfl rfl
    · exact .of_same (Except.ok.inj (Platform.answer_suspend_iff.1 answer)).symm rfl rfl
  | report s text => exact .of_same (h.same_of_report hm rfl) rfl rfl

/-- **The buffer of a tile latches**, whichever hart drives it. -/
theorem WaitedAt.latches (h : WaitedAt m) : Latches Tile.buffer arrivals m := by
  obtain ⟨fired, hfires⟩ := h.fires
  rw [Latches, arrivals_of_perm hfires.perm]
  exact hfires.buffer

theorem latches (h : platform.Walk t ms t') (hm : m ∈ ms) (hwait : m.event.OfWait) :
    Latches Tile.buffer arrivals m :=
  (isHart_platform.waitedAt h hm hwait).latches

/-- A look at a tile finds the reported lines that are up. -/
theorem reported_of_look (h : platform.Walk t ms t') (hm : m ∈ ms) {up : EventMask}
    (he : m.event = .look up) : m.before.reported = up :=
  (isHart_platform.of_look h hm he).1

/-- **What comes up in a run of a wait** are the lines of the entries that are gone after it. -/
theorem exists_fired_walk (h : platform.Walk t ms t') (hwait : ∀ m ∈ ms, m.event.OfWait) :
    ∃ fired : Schedule, t.schedule.Perm (fired ++ t'.schedule) ∧
      ∀ b, b ∈ fired.lines ↔ ∃ m ∈ ms, b ∈ arrivals m := by
  induction ms generalizing t with
  | nil =>
    obtain rfl := Platform.Walk.nil_iff.1 h
    exact ⟨[], .refl _, by simp [EventMask.not_mem_empty]⟩
  | cons m ms ih =>
    obtain ⟨rfl, -, hrest⟩ := Platform.Walk.cons_iff.1 h
    obtain ⟨fired, hfires⟩ := (isHart_platform.waitedAt h (.head ms) (hwait m (.head ms))).fires
    obtain ⟨fired', hperm, hlines⟩ := ih hrest fun m' hm' ↦ hwait m' (.tail m hm')
    refine ⟨fired ++ fired', ?_, fun b ↦ ?_⟩
    · rw [List.append_assoc]
      exact hfires.perm.trans (hperm.append_left fired)
    · rw [Schedule.lines_append, EventMask.mem_union, hlines, ← arrivals_of_perm hfires.perm]
      simp

/-- What is up then was up before, or the schedule has raised it. -/
theorem of_mem_buffer (h : platform.Walk t ms t') (hwait : ∀ m ∈ ms, m.event.OfWait) {b : Nat}
    (hb : b ∈ t'.buffer) : b ∈ t.buffer ∨ ∃ e ∈ t.schedule, b ∈ e.stimulus.lines := by
  by_cases hup : b ∈ t.buffer
  · exact .inl hup
  obtain ⟨fired, hperm, hlines⟩ := exists_fired_walk h hwait
  have harrival := exists_arrival h (fun m hm ↦ latches h hm (hwait m hm)) hup hb
  obtain ⟨e, he, hb⟩ := Schedule.mem_lines.1 ((hlines b).2 harrival)
  exact .inr ⟨e, hperm.mem_iff.2 (List.mem_append_left _ he), hb⟩

/-! ## While a wait polls -/

/-- What a wait that polls can do is what a wait can do. -/
theorem ofWait_of_ofMode {mode : WaitMode} {e : Event} (h : e.OfMode mode) : e.OfWait := by
  cases h with
  | look up => exact .look up
  | takeDown m => exact .takeDown m
  | spin => exact .spin _
  | waking m => exact .waking m
  | wake m => exact .wake m
  | suspend => exact .suspend
  | report s text => exact .report s text

/-- What `ms` has brought a tile to that was like `t` and is like `t'`: time has passed at the
delays, and if there were any then nothing is left that is due. -/
structure Ticked (t : Tile) (ms : List (Moment Tile)) (t' : Tile) : Prop where
  now : t'.now = t.now + pollQuantum.toNat * delays (ms.map Moment.event)
  mask : t'.mask = t.mask
  same : delays (ms.map Moment.event) = 0 → t'.schedule = t.schedule
  later : 0 < delays (ms.map Moment.event) → ∀ e ∈ t'.schedule, t'.now < e.due

/-- A moment of a wait that polls: time passes at a delay, and nothing changes otherwise. -/
theorem ticked_moment (h : platform.Walk t ms t') (hm : m ∈ ms) (hmode : m.event.OfMode .polling) :
    Ticked m.before [m] m.after := by
  have hstill : ∀ (a : Action) (r r' : a.Reply) (t : Tile), m.event = .ofReply a r →
      platform.answer a m.before = .ok (r', t) → t.now = m.before.now → t.mask = m.before.mask →
      t.schedule = m.before.schedule → m.event.isSpin = false → Ticked m.before [m] m.after := by
    intro a r r' t hevent hanswer hnow hmask hschedule hspin
    rw [h.answer_of_event hm hevent] at hanswer
    obtain ⟨-, rfl⟩ := Prod.mk.inj (Except.ok.inj hanswer)
    refine ⟨?_, hmask, fun _ ↦ hschedule, ?_⟩ <;> simp [hspin, hnow]
  obtain ⟨before, e, after⟩ := m
  cases hmode with
  | look up => exact hstill (.read .eventUnit _) up.bits _ _ rfl rfl rfl rfl rfl rfl
  | takeDown m =>
    have answer := h.answer_of_event hm (a := .write .eventUnit _ m.bits) (r := ()) rfl
    have hafter : after = _ := writeClear_eq (Platform.answer_write_iff.1 answer)
    refine ⟨?_, ?_, fun _ ↦ ?_, fun hsome ↦ absurd hsome (Nat.lt_irrefl 0)⟩ <;>
      exact hafter ▸ rfl
  | spin =>
    have answer := h.answer_of_event hm (a := .spin pollQuantum) (r := ()) rfl
    obtain ⟨hnow, hpasses⟩ := passes_advance (Platform.answer_spin_iff.1 answer)
    exact ⟨hnow, hpasses.mask, by simp, fun _ ↦ hpasses.later⟩
  | report s text => exact hstill (.report s text) () _ _ rfl rfl rfl rfl rfl rfl

theorem ticked_of_walk (h : platform.Walk t ms t')
    (hmode : ∀ m ∈ ms, m.event.OfMode .polling) : Ticked t ms t' := by
  induction ms generalizing t with
  | nil =>
    obtain rfl := Platform.Walk.nil_iff.1 h
    exact ⟨rfl, rfl, fun _ ↦ rfl, by simp⟩
  | cons m ms ih =>
    obtain ⟨rfl, -, hrest⟩ := Platform.Walk.cons_iff.1 h
    have hm := ticked_moment h (.head ms) (hmode m (.head ms))
    have hms := ih hrest fun m' hm' ↦ hmode m' (.tail m hm')
    have hdelays : delays ((m :: ms).map Moment.event) =
        delays ([m].map Moment.event) + delays (ms.map Moment.event) :=
      EventUnit.delays_append [m.event] (ms.map Moment.event)
    refine ⟨?_, hms.mask.trans hm.mask, fun hnone ↦ ?_, fun hsome ↦ ?_⟩
    · rw [hms.now, hm.now, hdelays, Nat.mul_add, Nat.add_assoc]
    · rw [hdelays] at hnone
      exact (hms.same (by omega)).trans (hm.same (by omega))
    · rcases Nat.eq_zero_or_pos (delays (ms.map Moment.event)) with hzero | hpos
      · rw [hms.now, hms.same hzero, hzero]
        exact hm.later (by omega)
      · exact hms.later hpos

/-- **What is not taken down stays up, and it comes up when it is due.** -/
theorem mem_buffer_of_due (h : platform.Walk t ms t') (hmode : ∀ m ∈ ms, m.event.OfMode .polling)
    {b : Nat} (hnever : ∀ m ∈ ms, ¬ b ∈ m.event.clears) :
    (b ∈ t.buffer → b ∈ t'.buffer) ∧
      (0 < delays (ms.map Moment.event) →
        ∀ e ∈ t.schedule, b ∈ e.stimulus.lines → e.due ≤ t'.now → b ∈ t'.buffer) := by
  have hwait : ∀ m ∈ ms, m.event.OfWait := fun m hm ↦ ofWait_of_ofMode (hmode m hm)
  have hlatched := mem_of_walk (b := b) h fun m hm ↦ latches h hm (hwait m hm)
  refine ⟨fun hup ↦ hlatched.2 (.inl ⟨hup, hnever⟩), fun hsome e he hlines hdue ↦ ?_⟩
  -- the entry has fired by then, so its lines have come up
  obtain ⟨fired, hperm, harrivals⟩ := exists_fired_walk h hwait
  have hfired : e ∈ fired := (List.mem_append.1 (hperm.mem_iff.1 he)).resolve_right fun hleft ↦
    Nat.not_lt.2 hdue ((ticked_of_walk h hmode).later hsome e hleft)
  obtain ⟨m, hm, harrives⟩ := (harrivals b).1 (Schedule.mem_lines.2 ⟨e, hfired, hlines⟩)
  obtain ⟨before, after, rfl⟩ := List.append_of_mem hm
  exact hlatched.2 (.inr ⟨before, m, after, rfl, harrives, fun m' hm' ↦
    hnever m' (List.mem_append_right before hm')⟩)

end Walks
end Tile
end TileEvents
