import Mathlib.Order.Bounds.Defs
import TileEvents.EventUnit.Basic
import TileEvents.Proofs.Additive
import TileEvents.Proofs.Returns

/-!
# The event unit's own sleep

The event unit can put the hart to sleep itself: a read of either of its two waiting registers comes
back only when a reported line is up.  If one is up already it comes back at once.  Otherwise the
clock moves to the first time that a scheduled line is to go up that is reported, and all that is
due by then fires, also what raises none of the lines that the sleep is for.  Then a line must be up
(`Tile.Moved.up_of_edge`), whatever else has fired, so a sleep never comes back with nothing.

The two registers differ in what they leave (`EventUnit.own_sleep`).  The second one takes
everything down, so lines that are up and are not reported are lost there.
-/

set_option autoImplicit false

namespace TileEvents

namespace Schedule

/-- The times at which a line of `m` is to go up. -/
def edges (es : Schedule) (m : EventMask) : Set Nat :=
  {due | ∃ e ∈ es, e.stimulus.lines.intersects m = true ∧ e.due = due}

variable {es : Schedule} {m : EventMask} {due now : Nat}

theorem nextEdge?_eq_some_iff_isLeast : es.nextEdge? m = some due ↔ IsLeast (es.edges m) due := by
  rw [nextEdge?_eq_some_iff]
  refine and_congr_right fun _ ↦ ⟨?_, fun h e he hlines ↦ h ⟨e, he, hlines, rfl⟩⟩
  rintro h _ ⟨e, he, hlines, rfl⟩
  exact h e he hlines

theorem nextEdge?_eq_none_of_edges (h : es.edges m = ∅) : es.nextEdge? m = none := by
  cases hdue : es.nextEdge? m with
  | none => rfl
  | some due =>
    have hleast := (nextEdge?_eq_some_iff_isLeast.1 hdue).1
    rw [h] at hleast
    cases hleast

/-- By the time of one of them a line has gone up. -/
theorem exists_mem_lines_of_edges (h : due ∈ es.edges m) (hle : due ≤ now) :
    ∃ b, b ∈ (es.dueBy now).lines ∧ b ∈ m := by
  obtain ⟨e, he, hlines, rfl⟩ := h
  obtain ⟨b, hb, hm⟩ := EventMask.intersects_iff.1 hlines
  exact ⟨b, mem_lines.2 ⟨e, mem_dueBy.2 ⟨he, hle⟩, hb⟩, hm⟩

end Schedule

namespace Tile

variable {t u : Tile} {now due : Nat} {m : EventMask}

/-- **A line is up once the clock has come to an edge of it.** -/
theorem Moved.up_of_edge (h : t.Moved now u) (hdue : due ∈ t.schedule.edges m) (hle : due ≤ now) :
    (u.buffer ∩ m).isEmpty = false := by
  obtain ⟨rest, -, rfl⟩ := h
  obtain ⟨b, hb, hm⟩ := Schedule.exists_mem_lines_of_edges hdue hle
  rw [EventMask.isEmpty_eq_false_iff]
  exact ⟨b, EventMask.mem_inter.2 ⟨EventMask.mem_union.2 (.inr hb), hm⟩⟩

/-- A sleep for some lines moves the clock to their next edge. -/
theorem Solvent.sleepUntil_eq (h : t.Solvent) (hdue : IsLeast (t.schedule.edges m) due) :
    ∃ u, t.sleepUntil m = .ok u ∧ t.Moved (max t.now due) u := by
  have hmoved : { t with now := max t.now due }.Solvent := h
  obtain ⟨rest, hrest, hfire⟩ := fireDue_eq (hmoved.by _)
  refine ⟨_, ?_, rest, hrest, rfl⟩
  rw [sleepUntil, Schedule.nextEdge?_eq_some_iff_isLeast.2 hdue]
  exact hfire

theorem sleepUntil_eq_error (h : t.schedule.edges m = ∅) :
    t.sleepUntil m = .error (.noWakeSource t.now m) := by
  rw [sleepUntil, Schedule.nextEdge?_eq_none_of_edges h]

/-- A sleep of the hart that ends has a line up that wakes it. -/
theorem awake_of_suspend (h : t.suspend = .ok u) : (u.buffer ∩ u.irqMask).isEmpty = false := by
  obtain ⟨due, hdue, hnow, hpasses⟩ := passes_suspend h
  have hedge := (Schedule.nextEdge?_eq_some_iff_isLeast.1 hdue).1
  obtain ⟨b, hb, hirq⟩ :=
    Schedule.exists_mem_lines_of_edges hedge (hnow ▸ Nat.le_max_right _ _ : due ≤ u.now)
  rw [hpasses.buffer, hpasses.irqMask, EventMask.isEmpty_eq_false_iff]
  exact ⟨b, EventMask.mem_inter.2 ⟨EventMask.mem_union.2 (.inr hb), hirq⟩⟩

end Tile

namespace EventUnit

variable {p : Platform Tile} {v : Verbosity} {n : Nat} {t u : Tile} {fired : Schedule}

/-- How the unit's own sleep ends when these entries have fired meanwhile: both registers show the
reported lines that are up, of which there are some, and one leaves the lines up while the other
takes all of them down. -/
structure OwnSleep (p : Platform Tile) (v : Verbosity) (n : Nat) (t : Tile) (fired : Schedule)
    (u : Tile) : Prop where
  up : ((t.buffer ∪ fired.lines) ∩ t.mask).isEmpty = false
  sleep : p.Returns sleep v n t ((t.buffer ∪ fired.lines) ∩ t.mask) n u
  uncleared : u.buffer = t.buffer ∪ fired.lines
  sleepClear : p.Returns sleepClear v n t ((t.buffer ∪ fired.lines) ∩ t.mask) n
    { u with buffer := ∅ }
  /-- What was up and is not in the answer is what is not reported. -/
  lost : u.buffer \ ((t.buffer ∪ fired.lines) ∩ t.mask) = u.buffer \ t.mask

/-- A read of a waiting register. -/
theorem returns_readLines (hp : Tile.IsHart p) {r : Register} {m : EventMask}
    (h : t.readUnit r.offset = .ok (m.bits, u)) : p.Returns (readLines r) v n t m n u := by
  have hread : p.read .eventUnit r.offset t = .ok (m.bits, u) := by
    rw [hp.registers.1]
    exact h
  exact (Platform.returns_read hread).bind (Platform.returns_pure _)

theorem outcome_readLines_of_error (hp : Tile.IsHart p) {r : Register} {f : Fault}
    (h : t.readUnit r.offset = .error f) :
    (p.run ((readLines r).program v n) t).outcome = .faulted f := by
  have hanswer : p.answer (.read .eventUnit r.offset) t = .error f := by
    show p.read .eventUnit r.offset t = .error f
    rw [hp.registers.1]
    exact h
  show (p.run (.step (.read .eventUnit r.offset) _) t).outcome = _
  rw [Platform.run_step, hanswer]

theorem readUnit_eventWait : t.readUnit Register.eventWait.offset =
    t.eventWait >>= fun u ↦ pure (u.reported.bits, u) := rfl

theorem readUnit_eventWaitClear : t.readUnit Register.eventWaitClear.offset =
    t.eventWait >>= fun u ↦ pure (u.reported.bits, { u with buffer := ∅ }) := rfl

/-- The unit sleeps until its tile is like this. -/
theorem ownSleep_of_eventWait (hp : Tile.IsHart p) (h : t.eventWait = .ok u)
    (hup : u.reported.isEmpty = false) (hbuffer : u.buffer = t.buffer ∪ fired.lines)
    (hmask : u.mask = t.mask) : OwnSleep p v n t fired u := by
  have hreported : u.reported = (t.buffer ∪ fired.lines) ∩ t.mask := by
    rw [Tile.reported, hbuffer, hmask]
  refine ⟨hreported ▸ hup, returns_readLines hp ?_, hbuffer, returns_readLines hp ?_, ?_⟩
  · rw [readUnit_eventWait, h, ← hreported]
    rfl
  · rw [readUnit_eventWaitClear, h, ← hreported]
    rfl
  · refine EventMask.ext_mem fun b ↦ ?_
    rw [← hbuffer, EventMask.mem_sdiff, EventMask.mem_sdiff, EventMask.mem_inter]
    exact and_congr_right fun hb ↦ not_congr (and_iff_right hb)

/-- **The event unit's own sleep.**  It is over at once if a reported line is up.  Otherwise it
lasts until the first edge of a reported line, and if there is none it has no end.  When it is over
a reported line is up; and so is a line that wakes the hart when a sleep of the hart is over. -/
theorem own_sleep (hp : Tile.IsHart p) (v : Verbosity) (n : Nat) (h : t.Solvent) :
    (t.reported.isEmpty = false → OwnSleep p v n t [] t) ∧
      (t.reported.isEmpty = true → ∀ due, IsLeast (t.schedule.edges t.mask) due →
        ∃ u, t.Moved (max t.now due) u ∧
          OwnSleep p v n t (t.schedule.dueBy (max t.now due)) u) ∧
      (t.reported.isEmpty = true → t.schedule.edges t.mask = ∅ →
        (p.run (sleep.program v n) t).outcome = .faulted (.noWakeSource t.now t.mask) ∧
          (p.run (sleepClear.program v n) t).outcome = .faulted (.noWakeSource t.now t.mask)) ∧
      ∀ u, Tile.platform.suspend t = .ok u → (u.buffer ∩ u.irqMask).isEmpty = false := by
  refine ⟨fun hup ↦ ?_, fun hdown due hdue ↦ ?_, fun hdown hnone ↦ ?_,
    fun _ ↦ Tile.awake_of_suspend⟩
  · have hwait : t.eventWait = .ok t := if_neg (Bool.eq_false_iff.1 hup)
    exact ownSleep_of_eventWait hp hwait hup (EventMask.union_empty _).symm rfl
  · -- an overdue edge counts: then the clock stays where it is, and the edge fires at once
    obtain ⟨u, hsleep, hmoved⟩ := h.sleepUntil_eq hdue
    have hwait : t.eventWait = .ok u := (if_pos hdown).trans hsleep
    have hup := hmoved.up_of_edge hdue.1 (Nat.le_max_right _ _)
    refine ⟨u, hmoved, ?_⟩
    obtain ⟨rest, -, rfl⟩ := hmoved
    exact ownSleep_of_eventWait hp hwait hup rfl rfl
  · have hwait : t.eventWait = .error (.noWakeSource t.now t.mask) :=
      (if_pos hdown).trans (Tile.sleepUntil_eq_error hnone)
    constructor
    · refine outcome_readLines_of_error hp ?_
      rw [readUnit_eventWait, hwait]
      rfl
    · refine outcome_readLines_of_error hp ?_
      rw [readUnit_eventWaitClear, hwait]
      rfl

/-- The accelerator is reported and done at 7, and a transfer that nobody asks for retires at 4. -/
def waitingForAcc : Tile := { Tile.twoDue with mask := Line.accDone.mask }

/-- The sleep is over at 7, and the transfer's line is up then and is not in the answer. -/
theorem own_sleep_waitingForAcc :
    waitingForAcc.Solvent ∧ waitingForAcc.reported.isEmpty = true ∧
      IsLeast (waitingForAcc.schedule.edges waitingForAcc.mask) 7 ∧ ∃ u,
        waitingForAcc.Moved 7 u ∧
        OwnSleep Tile.platform none 0 waitingForAcc (waitingForAcc.schedule.dueBy 7) u ∧
        u.buffer \ waitingForAcc.mask = (Line.dma .l2ToL1 .done).mask := by
  have hsolvent : waitingForAcc.Solvent := by
    intro c
    show waitingForAcc.schedule.retirements c ≤ 1
    simp only [waitingForAcc, Tile.twoDue, Schedule.retirements, List.countP_cons, List.countP_nil]
    split <;> simp
  have hleast : IsLeast (waitingForAcc.schedule.edges waitingForAcc.mask) 7 :=
    Schedule.nextEdge?_eq_some_iff_isLeast.1 rfl
  obtain ⟨u, hmoved, hsleep⟩ :=
    (own_sleep Tile.isHart_platform none 0 hsolvent).2.1 rfl 7 hleast
  refine ⟨hsolvent, rfl, hleast, u, hmoved, hsleep, ?_⟩
  rw [hsleep.uncleared]
  rfl

end EventUnit
end TileEvents
