import Mathlib.Data.Finset.Lattice.Fold
import Mathlib.Order.Lattice.Nat
import TileEvents.EventUnit.WaitAny
import TileEvents.Proofs.Firing
import TileEvents.Proofs.Halts
import TileEvents.Proofs.Operations
import TileEvents.Tile.Hardware

/-!
# Waiting asleep for one of several lines

A wait that sleeps for one of several lines returns when the first of them that is reported comes
up.  The hart may be woken before that, and often: by lines that it was not asked for but that wake
it, and by lines that it was asked for but that are not reported, so that no look finds them.  Each
such wake costs a turn of the loop and fires what is due by then.

None of this can be seen in the end.  How often the hart sleeps is the number of different times at
which a waking line comes up (`Tile.wakesBy`), and the tile is then as if it had slept until the
last of them at once (`Tile.slept_slept`).  So each turn either ends the wait or leaves one that is
shorter by an entry of the schedule and ends in the same way.

Only the count of the sleeps can be in the way: a tile that cannot count one more breaks off.
-/

set_option autoImplicit false

namespace TileEvents

namespace Tile

/-- The times at which one of the lines comes up.  What is overdue comes up at once. -/
def wakeTimes (t : Tile) (m : EventMask) : Finset Nat :=
  ((t.schedule.filter (·.stimulus.lines.intersects m)).map fun e ↦ max t.now e.due).toFinset

/-- How often the lines come up by a time; those that come up together count once. -/
def wakesBy (t : Tile) (m : EventMask) (now : Nat) : Nat :=
  ((t.wakeTimes m).filter fun x ↦ x ≤ now).card

/-- How often they come up at all. -/
def wakes (t : Tile) (m : EventMask) : Nat := (t.wakeTimes m).card

/-- When they come up for the last time. -/
def lastWake (t : Tile) (m : EventMask) : Nat := max t.now ((t.wakeTimes m).sup id)

/-- The tile after `k` sleeps, the last of them until `now`, from which these lines woke the
hart. -/
def slept (t : Tile) (waking : EventMask) (now k : Nat) (rest : Schedule) : Tile :=
  { t with now := now, irqMask := waking, suspends := t.suspends + k }.afterFiring
    (t.schedule.dueBy now) rest

/-- The tile after a look at some lines: the ones that it found are taken down. -/
def take (t : Tile) (m : EventMask) : Tile :=
  if (t.reported ∩ m).isEmpty then t
  else { t with buffer := t.buffer \ (t.reported ∩ m), clears := t.clears ++ [t.reported ∩ m] }

variable {t : Tile} {m waking : EventMask} {due now now' k k' x : Nat} {rest rest' : Schedule}

/-! ## One sleep after the other -/

theorem mem_wakeTimes :
    x ∈ t.wakeTimes m ↔
      ∃ e ∈ t.schedule, e.stimulus.lines.intersects m = true ∧ max t.now e.due = x := by
  simp only [wakeTimes, List.mem_toFinset, List.mem_map, List.mem_filter, and_assoc]

/-- Each time something comes up, and each entry comes up once. -/
theorem wakes_le_length (t : Tile) (m : EventMask) : t.wakes m ≤ t.schedule.length := by
  refine Nat.le_trans (List.toFinset_card_le _) ?_
  rw [List.length_map]
  exact List.length_filter_le _ _

/-- **Two sleeps are one that lasts as long.** -/
theorem slept_slept (t : Tile) (waking : EventMask) (k k' : Nat) (hnow : now ≤ now')
    (hrest : rest.Perm (t.schedule.dueAfter now)) :
    (t.slept waking now k rest).slept waking now' k' rest' =
      t.slept waking now' (k + k') rest' := by
  have hfired := (Schedule.perm_due_of_le hnow hrest).1
  have hcount : t.suspends + k + k' = t.suspends + (k + k') := Nat.add_assoc _ _ _
  show ({ t with
      now := now'
      irqMask := waking
      suspends := t.suspends + k + k' }.afterFiring (t.schedule.dueBy now) rest).afterFiring
    (rest.dueBy now') rest' = _
  rw [afterFiring_append, afterFiring_perm _ rest' hfired, hcount]
  rfl

theorem Solvent.slept (h : t.Solvent) (hrest : rest.Perm (t.schedule.dueAfter now)) :
    (t.slept waking now k rest).Solvent := by
  have hmoved : { t with now := now, irqMask := waking, suspends := t.suspends + k }.Solvent := h
  exact hmoved.afterFiring ((t.schedule.perm_due now).trans (hrest.symm.append_left _))

/-- After a sleep nothing is left of what came up by then. -/
theorem lt_of_mem_wakeTimes_slept (hrest : rest.Perm (t.schedule.dueAfter now))
    (hx : x ∈ (t.slept waking now k rest).wakeTimes m) : now < x := by
  obtain ⟨e, he, -, rfl⟩ := mem_wakeTimes.1 hx
  have hlater := (Schedule.mem_dueAfter.1 (hrest.mem_iff.1 he)).2
  exact Nat.lt_of_lt_of_le hlater (Nat.le_max_right _ _)

/-- A sleep until the next edge passes the first time and no other. -/
theorem wakeTimes_eq_insert (waking : EventMask) (k : Nat)
    (hdue : t.schedule.nextEdge? m = some due)
    (hrest : rest.Perm (t.schedule.dueAfter (max t.now due))) :
    t.wakeTimes m =
      insert (max t.now due) ((t.slept waking (max t.now due) k rest).wakeTimes m) := by
  obtain ⟨⟨e, he, hlines, hedue⟩, hmin⟩ := Schedule.nextEdge?_eq_some_iff.1 hdue
  have hmem : ∀ {e'}, e' ∈ rest ↔ e' ∈ t.schedule ∧ max t.now due < e'.due :=
    fun {e'} ↦ hrest.mem_iff.trans Schedule.mem_dueAfter
  ext x
  rw [Finset.mem_insert, mem_wakeTimes, mem_wakeTimes]
  constructor
  · rintro ⟨e', he', hlines', rfl⟩
    have hle := hmin e' he' hlines'
    by_cases hby : e'.due ≤ max t.now due
    · exact .inl (by omega)
    · refine .inr ⟨e', hmem.2 ⟨he', by omega⟩, hlines', ?_⟩
      show max (max t.now due) e'.due = max t.now e'.due
      omega
  · rintro (rfl | ⟨e', he', hlines', rfl⟩)
    · exact ⟨e, he, hlines, by rw [hedue]⟩
    · obtain ⟨hin, hlater⟩ := hmem.1 he'
      refine ⟨e', hin, hlines', ?_⟩
      show max t.now e'.due = max (max t.now due) e'.due
      omega

/-- It is one wake. -/
theorem wakesBy_eq_succ (hdue : t.schedule.nextEdge? m = some due)
    (hrest : rest.Perm (t.schedule.dueAfter (max t.now due))) (hnow : max t.now due ≤ now) :
    t.wakesBy m now = 1 + (t.slept waking (max t.now due) k rest).wakesBy m now := by
  rw [wakesBy, wakeTimes_eq_insert waking k hdue hrest, Finset.filter_insert,
    if_pos hnow, Finset.card_insert_of_notMem, Nat.add_comm, wakesBy]
  intro hmem
  exact Nat.lt_irrefl _ (lt_of_mem_wakeTimes_slept hrest (Finset.mem_filter.1 hmem).1)

theorem wakes_eq_succ (hdue : t.schedule.nextEdge? m = some due)
    (hrest : rest.Perm (t.schedule.dueAfter (max t.now due))) :
    t.wakes m = 1 + (t.slept waking (max t.now due) k rest).wakes m := by
  rw [wakes, wakeTimes_eq_insert waking k hdue hrest,
    Finset.card_insert_of_notMem, Nat.add_comm, wakes]
  exact fun hmem ↦ Nat.lt_irrefl _ (lt_of_mem_wakeTimes_slept hrest hmem)

/-- By the end of a sleep there is no other. -/
theorem wakesBy_slept (hrest : rest.Perm (t.schedule.dueAfter now)) :
    (t.slept waking now k rest).wakesBy m now = 0 := by
  rw [wakesBy, Finset.card_eq_zero, Finset.filter_eq_empty_iff]
  exact fun x hx ↦ Nat.not_le_of_lt (lt_of_mem_wakeTimes_slept hrest hx)

theorem lastWake_slept (hdue : t.schedule.nextEdge? m = some due)
    (hrest : rest.Perm (t.schedule.dueAfter (max t.now due))) :
    (t.slept waking (max t.now due) k rest).lastWake m = t.lastWake m := by
  rw [lastWake, lastWake, wakeTimes_eq_insert waking k hdue hrest,
    Finset.sup_insert]
  show max (max t.now due) _ = max t.now (max (max t.now due) _)
  omega

/-- Lines that do not come up are no cause to wake. -/
theorem wakeTimes_eq_empty (hnone : t.schedule.nextEdge? m = none) : t.wakeTimes m = ∅ := by
  refine Finset.eq_empty_of_forall_notMem fun x hx ↦ ?_
  obtain ⟨e, he, hlines, -⟩ := mem_wakeTimes.1 hx
  obtain ⟨due, hdue⟩ := Schedule.exists_nextEdge? he hlines
  rw [hnone] at hdue
  exact nomatch hdue

/-! ## What is up after a sleep -/

/-- Where nothing was up, what is up has come up. -/
theorem reported_slept (hdown : (t.reported ∩ m).isEmpty = true) :
    (t.slept waking now k rest).reported ∩ m = (t.schedule.dueBy now).lines ∩ (t.mask ∩ m) := by
  rw [EventMask.isEmpty_iff, reported, EventMask.inter_assoc] at hdown
  show (t.buffer ∪ (t.schedule.dueBy now).lines) ∩ t.mask ∩ m = _
  rw [EventMask.inter_assoc, EventMask.union_inter, hdown, EventMask.empty_union]

theorem isEmpty_reported_slept_iff (hdown : (t.reported ∩ m).isEmpty = true) :
    ((t.slept waking now k rest).reported ∩ m).isEmpty = false ↔
      ∃ e ∈ t.schedule, e.stimulus.lines.intersects (t.mask ∩ m) = true ∧ e.due ≤ now := by
  rw [reported_slept hdown, EventMask.isEmpty_eq_false_iff]
  simp only [EventMask.mem_inter (m := Schedule.lines _), Schedule.mem_lines, Schedule.mem_dueBy,
    EventMask.intersects_iff]
  constructor
  · rintro ⟨b, ⟨e, ⟨he, hdue⟩, hb⟩, hm⟩
    exact ⟨e, he, ⟨b, hb, hm⟩, hdue⟩
  · rintro ⟨e, he, ⟨b, hb, hm⟩, hdue⟩
    exact ⟨b, ⟨e, ⟨he, hdue⟩, hb⟩, hm⟩

theorem take_of_down (hdown : (t.reported ∩ m).isEmpty = true) : t.take m = t := if_pos hdown

theorem take_of_up (hup : (t.reported ∩ m).isEmpty = false) :
    t.take m =
      { t with buffer := t.buffer \ (t.reported ∩ m), clears := t.clears ++ [t.reported ∩ m] } :=
  if_neg (Bool.eq_false_iff.1 hup)

end Tile

namespace EventUnit

open Tile (platform)

variable {t u : Tile} {m : EventMask} {v : Verbosity} {budget : Budget} {n k : Nat} {why : Fault}

/-! ## One turn -/

theorem halts_take (hroom : t.clears.length < clearLogCapacity) :
    platform.Halts (take m) v n t 0 (.returned (t.reported ∩ m, n) (t.take m)) := by
  have hobserve : platform.Halts (observe m) v n t 0 (.returned (t.reported ∩ m, n) t) :=
    ((Platform.halts_read rfl).bind_pure EventMask.mk).bind_pure (· ∩ m)
  show platform.Halts _ v n t (0 + 0) _
  refine hobserve.bind ?_
  split
  · next hdown =>
    rw [Tile.take_of_down hdown]
    exact Platform.halts_pure _
  · next hup =>
    have hwrite : platform.write .eventUnit Register.bufferClear.offset (t.reported ∩ m).bits t =
        .ok (t.take m) := by
      rw [Tile.take_of_up (Bool.eq_false_iff.2 hup)]
      exact if_pos hroom
    exact (Platform.halts_write hwrite).bind_pure fun _ ↦ t.reported ∩ m

/-- A look that finds something is all. -/
theorem halts_sleepFor_of_up (hroom : t.clears.length < clearLogCapacity)
    (hup : (t.reported ∩ m).isEmpty = false) :
    platform.Halts (sleepFor m) v n t 0 (.returned (t.reported ∩ m, n) (t.take m)) := by
  show platform.Halts _ v n t (0 + 0) _
  refine (halts_take hroom).bind ?_
  rw [if_neg (Bool.eq_false_iff.1 hup)]
  exact Platform.halts_pure _

/-- Otherwise there is a sleep. -/
theorem halts_sleepFor_of_down {o : Outcome Tile (EventMask × Nat)}
    (hroom : t.clears.length < clearLogCapacity) (hdown : (t.reported ∩ m).isEmpty = true)
    (h : platform.Halts (sleepOnce m) v n t k o) : platform.Halts (sleepFor m) v n t k o := by
  rw [← Nat.zero_add k]
  refine (halts_take hroom).bind ?_
  rw [if_pos hdown, Tile.take_of_down hdown]
  exact h

/-- After a sleep there is another look, -/
theorem halts_sleepOnce (hsleep : t.suspend = .ok u) (hroom : u.clears.length < clearLogCapacity) :
    platform.Halts (sleepOnce m) v (n + 1) t 1 (.returned (u.reported ∩ m, n) (u.take m)) := by
  show platform.Halts _ v (n + 1) t (1 + (0 + (0 + 0))) _
  exact (Platform.halts_suspend hsleep).bind
    ((halts_take hroom).bind ((Platform.halts_report _ _).bind (Platform.halts_pure _)))

/-- unless the hart does not come back from it. -/
theorem halts_sleepOnce_fault (hsleep : t.suspend = .error why) :
    platform.Halts (sleepOnce m) v (n + 1) t 0 (.faulted why) :=
  (Platform.halts_suspend_fault hsleep).bind_fault _

/-- The lines are made to wake the hart before anything else. -/
theorem halts_suspend {o : Outcome Tile (EventMask × Nat)}
    (h : platform.Halts (sleepFor m) v n { t with irqMask := t.irqMask ∪ m } k o) :
    platform.Halts (suspend m) v n t k o := by
  have hirq : platform.Halts irqEnabled v n t 0 (.returned (t.irqMask, n) t) :=
    (Platform.halts_read rfl).bind_pure EventMask.mk
  rw [suspend, ← Nat.zero_add k]
  refine hirq.bind ?_
  split
  · rw [← Nat.zero_add k]
    exact (Platform.halts_write rfl).bind h
  · next hsub =>
    rw [EventMask.union_eq_left (Classical.not_not.1 hsub)] at h
    exact h

/-! ## The whole wait -/

section Loop

/-- What was found ends the wait. -/
theorem halts_waitAnyLoop_stop {seen : EventMask} {n' : Nat} (hseen : seen.isEmpty = false)
    (h : platform.Halts (suspend m) v n t k (.returned (seen, n') u)) :
    platform.Halts (waitAnyLoop m .suspend budget) v n t k (.returned (.ok seen, n') u) := by
  refine Platform.Halts.loop_stop (descends_waitAnyTurn m .suspend budget) ?_
  show platform.Halts _ v n t (k + 0) _
  refine h.bind ?_
  rw [if_neg (Bool.eq_false_iff.1 hseen)]
  exact Platform.halts_pure _

/-- Where nothing was found the wait goes on. -/
theorem halts_waitAnyLoop_again {seen : EventMask} {n' k' : Nat}
    {o : Outcome Tile (Except WaitError EventMask × Nat)} (hnone : seen.isEmpty = true)
    (h : platform.Halts (suspend m) v n t k (.returned (seen, n') u))
    (hrest : platform.Halts (waitAnyLoop m .suspend budget) v n' u k' o) :
    platform.Halts (waitAnyLoop m .suspend budget) v n t (k + k') o := by
  refine Platform.Halts.loop_again (descends_waitAnyTurn m .suspend budget) ?_ hrest
  show platform.Halts _ v n t (k + 0) _
  refine h.bind ?_
  rw [if_pos hnone]
  exact Platform.halts_pure _

theorem halts_waitAnyLoop_fault (h : platform.Halts (suspend m) v n t k (.faulted why)) :
    platform.Halts (waitAnyLoop m .suspend budget) v n t k (.faulted why) :=
  Platform.Halts.loop_fault (descends_waitAnyTurn m .suspend budget) (h.bind_fault _)

/-! ### One sleep -/

/-- The hart cannot be put to sleep once more. -/
theorem halts_waitAnyLoop_overflow (hroom : t.clears.length < clearLogCapacity)
    (hdown : (t.reported ∩ m).isEmpty = true) (hcount : counterLimit ≤ t.suspends + 1) :
    platform.Halts (waitAnyLoop m .suspend budget) v (n + 1) t 0 (.faulted .additionOverflow) :=
  halts_waitAnyLoop_fault (halts_suspend (halts_sleepFor_of_down hroom hdown
    (halts_sleepOnce_fault (if_neg (Nat.not_lt_of_le hcount)))))

/-- Nothing is going to wake it. -/
theorem halts_waitAnyLoop_unwoken (hroom : t.clears.length < clearLogCapacity)
    (hdown : (t.reported ∩ m).isEmpty = true) (hcount : t.suspends + 1 < counterLimit)
    (hnone : t.schedule.nextEdge? (t.irqMask ∪ m) = none) :
    platform.Halts (waitAnyLoop m .suspend budget) v (n + 1) t 0
      (.faulted (.noWakeSource t.now (t.irqMask ∪ m))) := by
  refine halts_waitAnyLoop_fault (halts_suspend (halts_sleepFor_of_down hroom hdown
    (halts_sleepOnce_fault ?_)))
  rw [Tile.suspend, if_pos hcount, Tile.sleepUntil]
  dsimp only
  rw [hnone]

/-- It sleeps until the next edge that wakes it. -/
theorem exists_halts_suspend (hsolvent : t.Solvent) (hroom : t.clears.length < clearLogCapacity)
    (hdown : (t.reported ∩ m).isEmpty = true) (hcount : t.suspends + 1 < counterLimit) {due : Nat}
    (hdue : t.schedule.nextEdge? (t.irqMask ∪ m) = some due) :
    ∃ rest, rest.Perm (t.schedule.dueAfter (max t.now due)) ∧ ∀ v n,
      platform.Halts (suspend m) v (n + 1) t 1
        (.returned ((t.slept (t.irqMask ∪ m) (max t.now due) 1 rest).reported ∩ m, n)
          ((t.slept (t.irqMask ∪ m) (max t.now due) 1 rest).take m)) := by
  have hwaking : { t with irqMask := t.irqMask ∪ m }.Solvent := hsolvent
  obtain ⟨rest, hrest, hsleep⟩ := Tile.suspend_eq hwaking hcount hdue
  exact ⟨rest, hrest, fun v n ↦
    halts_suspend (halts_sleepFor_of_down hroom hdown (halts_sleepOnce hsleep hroom))⟩

/-! ### Any number of sleeps -/

theorem intersects_waking {lines mask waking : EventMask} (hwaking : m ⊆ waking)
    (h : lines.intersects (mask ∩ m) = true) : lines.intersects waking = true := by
  obtain ⟨b, hb, hm⟩ := EventMask.intersects_iff.1 h
  exact EventMask.intersects_iff.2
    ⟨b, hb, EventMask.subset_iff.1 hwaking b (EventMask.mem_inter.1 hm).2⟩

/-- A sleep until before anything comes up that is reported is in vain, and the wait goes on from
there with less that is scheduled. -/
theorem exists_doze (budget : Budget) (hsolvent : t.Solvent)
    (hroom : t.clears.length < clearLogCapacity)
    (hdown : (t.reported ∩ m).isEmpty = true) (hcount : t.suspends + 1 < counterLimit)
    {waking : EventMask} (hwaking : t.irqMask ∪ m = waking) {next : Nat}
    (hnext : t.schedule.nextEdge? waking = some next)
    (hvain : ∀ e ∈ t.schedule, e.stimulus.lines.intersects (t.mask ∩ m) = true →
      max t.now next < e.due) :
    ∃ rest, rest.Perm (t.schedule.dueAfter (max t.now next)) ∧
      rest.length < t.schedule.length ∧
      ((t.slept waking (max t.now next) 1 rest).reported ∩ m).isEmpty = true ∧
      ∀ {v n k} {o : Outcome Tile (Except WaitError EventMask × Nat)},
        platform.Halts (waitAnyLoop m .suspend budget) v n
          (t.slept waking (max t.now next) 1 rest) k o →
        platform.Halts (waitAnyLoop m .suspend budget) v (n + 1) t (1 + k) o := by
  obtain ⟨rest, hrest, hsleep⟩ :=
    exists_halts_suspend hsolvent hroom hdown hcount (hwaking.symm ▸ hnext)
  rw [hwaking] at hsleep
  have hnone : ((t.slept waking (max t.now next) 1 rest).reported ∩ m).isEmpty = true := by
    rw [← Bool.not_eq_false, Tile.isEmpty_reported_slept_iff hdown]
    rintro ⟨e, he, hlines, hdue⟩
    exact Nat.not_le_of_lt (hvain e he hlines) hdue
  obtain ⟨⟨first, hfirst, -, hdue⟩, -⟩ := Schedule.nextEdge?_eq_some_iff.1 hnext
  refine ⟨rest, hrest, ?_, hnone, fun {v n k o} hrun ↦ ?_⟩
  · rw [hrest.length_eq]
    exact Schedule.length_dueAfter_lt hfirst (hdue ▸ Nat.le_max_right _ _)
  · rw [Tile.take_of_down hnone] at hsleep
    exact halts_waitAnyLoop_again hnone (hsleep v n) hrun

/-- A sleep until something is up that is reported ends the wait. -/
theorem exists_awake (budget : Budget) (hsolvent : t.Solvent)
    (hroom : t.clears.length < clearLogCapacity)
    (hdown : (t.reported ∩ m).isEmpty = true) (hcount : t.suspends + 1 < counterLimit)
    {waking : EventMask} (hwaking : t.irqMask ∪ m = waking) {next : Nat}
    (hnext : t.schedule.nextEdge? waking = some next)
    (hup : ∃ e ∈ t.schedule, e.stimulus.lines.intersects (t.mask ∩ m) = true ∧
      e.due ≤ max t.now next) :
    ∃ rest, rest.Perm (t.schedule.dueAfter (max t.now next)) ∧
      ∀ v n, platform.Halts (waitAnyLoop m .suspend budget) v (n + 1) t 1
        (.returned (.ok ((t.slept waking (max t.now next) 1 rest).reported ∩ m), n)
          ((t.slept waking (max t.now next) 1 rest).take m)) := by
  obtain ⟨rest, hrest, hsleep⟩ :=
    exists_halts_suspend hsolvent hroom hdown hcount (hwaking.symm ▸ hnext)
  rw [hwaking] at hsleep
  exact ⟨rest, hrest, fun v n ↦
    halts_waitAnyLoop_stop ((Tile.isEmpty_reported_slept_iff hdown).2 hup) (hsleep v n)⟩

/-- **If a reported line is to come up, the wait ends when the first one does**, or the count of the
sleeps overflows before that. -/
theorem exists_halts_of_edge (budget : Budget) (hsolvent : t.Solvent)
    (hroom : t.clears.length < clearLogCapacity)
    (hdown : (t.reported ∩ m).isEmpty = true) {waking : EventMask}
    (hwaking : t.irqMask ∪ m = waking) {due T : Nat}
    (hdue : t.schedule.nextEdge? (t.mask ∩ m) = some due) (hT : max t.now due = T)
    (hk : t.wakesBy waking T = k) (hn : k ≤ n) :
    ∃ rest, rest.Perm (t.schedule.dueAfter T) ∧
      (t.suspends + k < counterLimit → platform.Halts (waitAnyLoop m .suspend budget) v n t k
        (.returned (.ok ((t.slept waking T k rest).reported ∩ m), n - k)
          ((t.slept waking T k rest).take m))) ∧
      (counterLimit ≤ t.suspends + k →
        ∃ j, platform.Halts (waitAnyLoop m .suspend budget) v n t j
          (.faulted .additionOverflow)) := by
  -- by induction on what is scheduled, of which each sleep takes something
  induction hlength : t.schedule.length using Nat.strongRecOn generalizing t n k with
  | _ length ih =>
    have hsub : m ⊆ waking := hwaking ▸ EventMask.subset_union_right _ _
    obtain ⟨⟨e, he, hlines, rfl⟩, hmin⟩ := Schedule.nextEdge?_eq_some_iff.1 hdue
    have hcause := intersects_waking hsub hlines
    obtain ⟨next, hnext⟩ := Schedule.exists_nextEdge? he hcause
    have hle : next ≤ e.due := (Schedule.nextEdge?_eq_some_iff.1 hnext).2 e he hcause
    have hsoon : max t.now next ≤ T := by omega
    have hwakes : ∀ {rest}, rest.Perm (t.schedule.dueAfter (max t.now next)) →
        k = 1 + (t.slept waking (max t.now next) 1 rest).wakesBy waking T :=
      fun hrest ↦ hk ▸ Tile.wakesBy_eq_succ hnext hrest hsoon
    have hpos := hwakes (.refl _)
    obtain ⟨n, rfl⟩ : ∃ n', n = n' + 1 := ⟨n - 1, by omega⟩
    by_cases hcount : t.suspends + 1 < counterLimit
    · by_cases hfound : max t.now next = T
      · obtain ⟨rest, hrest, hends⟩ := exists_awake budget hsolvent hroom hdown hcount hwaking hnext
          ⟨e, he, hlines, by omega⟩
        have hk := hwakes hrest
        rw [hfound] at hrest hends hk
        rw [Tile.wakesBy_slept hrest] at hk
        obtain rfl : k = 1 := hk
        exact ⟨rest, hrest, fun _ ↦ hends v n, fun hmany ↦ absurd hcount (Nat.not_lt_of_le hmany)⟩
      · have hlater : ∀ e' ∈ t.schedule, e'.stimulus.lines.intersects (t.mask ∩ m) = true →
            max t.now next < e'.due := by
          intro e' he' hlines'
          have := hmin e' he' hlines'
          omega
        obtain ⟨rest, hrest, hless, hnone, hdoze⟩ :=
          exists_doze budget hsolvent hroom hdown hcount hwaking hnext hlater
        obtain ⟨k', hk'⟩ : ∃ k', (t.slept waking (max t.now next) 1 rest).wakesBy waking T = k' :=
          ⟨_, rfl⟩
        obtain rfl : k = 1 + k' := hk' ▸ hwakes hrest
        obtain ⟨rest', hrest', hends, hover⟩ := ih rest.length (hlength ▸ hless)
          (t := t.slept waking (max t.now next) 1 rest) (n := n) (hsolvent.slept hrest) hroom hnone
          (EventMask.union_eq_left hsub) ((Schedule.nextEdge?_of_later hrest hlater).trans hdue)
          (by show max (max t.now next) e.due = T; omega) hk' (by omega) rfl
        refine ⟨rest', hrest'.trans (Schedule.perm_due_of_le hsoon hrest).2, fun hfew ↦ ?_,
          fun hmany ↦ ?_⟩
        · have hrun := hdoze (hends (by show t.suspends + 1 + k' < counterLimit; omega))
          rw [Tile.slept_slept _ _ _ _ hsoon hrest] at hrun
          rwa [show n + 1 - (1 + k') = n - k' by omega]
        · obtain ⟨j, hj⟩ := hover (by show counterLimit ≤ t.suspends + 1 + k'; omega)
          exact ⟨1 + j, hdoze hj⟩
    · exact ⟨_, .refl _, fun hfew ↦ absurd hfew (by omega),
        fun _ ↦ ⟨0, halts_waitAnyLoop_overflow hroom hdown (Nat.le_of_not_lt hcount)⟩⟩

/-- **If no reported line is to come up, the hart is woken by all others, and then by nothing.** -/
theorem halts_of_no_edge (budget : Budget) (hsolvent : t.Solvent)
    (hroom : t.clears.length < clearLogCapacity)
    (hdown : (t.reported ∩ m).isEmpty = true) {waking : EventMask}
    (hwaking : t.irqMask ∪ m = waking) (hnone : t.schedule.nextEdge? (t.mask ∩ m) = none)
    (hk : t.wakes waking = k) (hn : k < n) :
    (t.suspends + k + 1 < counterLimit → platform.Halts (waitAnyLoop m .suspend budget) v n t k
        (.faulted (.noWakeSource (t.lastWake waking) waking))) ∧
      (counterLimit ≤ t.suspends + k + 1 →
        ∃ j, platform.Halts (waitAnyLoop m .suspend budget) v n t j
          (.faulted .additionOverflow)) := by
  induction hlength : t.schedule.length using Nat.strongRecOn generalizing t n k with
  | _ length ih =>
    obtain ⟨n, rfl⟩ : ∃ n', n = n' + 1 := ⟨n - 1, by omega⟩
    by_cases hcount : t.suspends + 1 < counterLimit
    · cases hnext : t.schedule.nextEdge? waking with
      | none =>
        have hempty := Tile.wakeTimes_eq_empty hnext
        obtain rfl : k = 0 := by rw [← hk, Tile.wakes, hempty, Finset.card_empty]
        have hlast : t.lastWake waking = t.now := by
          rw [Tile.lastWake, hempty, Finset.sup_empty]
          exact Nat.max_zero _
        refine ⟨fun _ ↦ ?_, fun hmany ↦ absurd hcount (Nat.not_lt_of_le hmany)⟩
        rw [hlast, ← hwaking]
        exact halts_waitAnyLoop_unwoken hroom hdown hcount (hwaking.symm ▸ hnext)
      | some next =>
        have hlater : ∀ e ∈ t.schedule, e.stimulus.lines.intersects (t.mask ∩ m) = true →
            max t.now next < e.due := by
          intro e he hlines
          obtain ⟨due, hdue⟩ := Schedule.exists_nextEdge? he hlines
          rw [hnone] at hdue
          exact nomatch hdue
        obtain ⟨rest, hrest, hless, hdown', hdoze⟩ :=
          exists_doze budget hsolvent hroom hdown hcount hwaking hnext hlater
        obtain ⟨k', hk'⟩ : ∃ k', (t.slept waking (max t.now next) 1 rest).wakes waking = k' :=
          ⟨_, rfl⟩
        obtain rfl : k = 1 + k' := by rw [← hk, Tile.wakes_eq_succ hnext hrest, hk']
        have hsub : m ⊆ waking := hwaking ▸ EventMask.subset_union_right _ _
        obtain ⟨hends, hover⟩ := ih rest.length (hlength ▸ hless)
          (t := t.slept waking (max t.now next) 1 rest) (n := n) (hsolvent.slept hrest) hroom hdown'
          (EventMask.union_eq_left hsub) ((Schedule.nextEdge?_of_later hrest hlater).trans hnone)
          hk' (by omega) rfl
        refine ⟨fun hfew ↦ ?_, fun hmany ↦ ?_⟩
        · have hrun := hdoze (hends (by show t.suspends + 1 + k' + 1 < counterLimit; omega))
          rwa [Tile.lastWake_slept hnext hrest] at hrun
        · obtain ⟨j, hj⟩ := hover (by show counterLimit ≤ t.suspends + 1 + k' + 1; omega)
          exact ⟨1 + j, hdoze hj⟩
    · exact ⟨fun hfew ↦ absurd hfew (by omega),
        fun _ ↦ ⟨0, halts_waitAnyLoop_overflow hroom hdown (Nat.le_of_not_lt hcount)⟩⟩

end Loop

/-- **A wait that sleeps for one of several lines, on a simulated tile, to the end.**

If some of the reported ones are up it returns with those, and the clock stands still.  Otherwise,
if some are to come up, it returns when the first of them does, with those that have come up by
then; the clock stands at that time, and exactly the entries that are due by then have fired.
Otherwise nothing wakes the hart in the end.  Either way it has slept once for each time by then at
which a line came up that wakes it, and in the end exactly the lines that were returned are down.
Where these are more sleeps than can be counted, it is the count that ends the wait. -/
theorem waitAnyOf_asleep {t : Tile} {m : EventMask} (v : Verbosity) (budget : Budget) (n : Nat)
    (hm : m.isEmpty = false)
    (hsolvent : ∀ c, t.schedule.retirements c ≤ (t.transfers c).issued - (t.transfers c).done)
    (hroom : t.clears.length < clearLogCapacity) :
    let run := platform.run ((waitAnyOf m .suspend budget).program v n) t
    let asked := t.mask ∩ m
    let waking := t.irqMask ∪ m
    ((t.buffer ∩ asked).isEmpty = false →
      run.events.countP Event.isSuspend = 0 ∧
      run.outcome = .returned (.ok (t.buffer ∩ asked), n) { t with
        buffer := t.buffer \ (t.buffer ∩ asked)
        irqMask := waking
        clears := t.clears ++ [t.buffer ∩ asked] }) ∧
    ((t.buffer ∩ asked).isEmpty = true → ∀ due, t.schedule.nextEdge? asked = some due →
      let T := max t.now due
      let seen := (t.schedule.dueBy T).lines ∩ asked
      let k := t.wakesBy waking T
      k ≤ n →
        (t.suspends + k < counterLimit →
          run.events.countP Event.isSuspend = k ∧
          ∃ rest, rest.Perm (t.schedule.dueAfter T) ∧
            run.outcome = .returned (.ok seen, n - k) { t with
              now := T
              buffer := (t.buffer ∪ (t.schedule.dueBy T).lines) \ seen
              irqMask := waking
              suspends := t.suspends + k
              schedule := rest
              transfers := t.retired (t.schedule.dueBy T)
              clears := t.clears ++ [seen] }) ∧
        (counterLimit ≤ t.suspends + k → run.outcome = .faulted .additionOverflow)) ∧
    ((t.buffer ∩ asked).isEmpty = true → t.schedule.nextEdge? asked = none →
      let k := t.wakes waking
      k ≤ t.schedule.length ∧ (k < n →
        (t.suspends + k + 1 < counterLimit →
          run.events.countP Event.isSuspend = k ∧
          run.outcome = .faulted (.noWakeSource (t.lastWake waking) waking)) ∧
        (counterLimit ≤ t.suspends + k + 1 → run.outcome = .faulted .additionOverflow))) := by
  intro run asked waking
  have hreported : t.reported ∩ m = t.buffer ∩ asked := EventMask.inter_assoc _ _ _
  have hrun : ∀ {k o}, platform.Halts (waitAnyLoop m .suspend budget) v n t k o →
      run.outcome = o ∧ run.events.countP Event.isSuspend = k :=
    fun h ↦ Platform.Halts.spec (waitAnyOf_eq .suspend budget hm ▸ h)
  rw [← hreported]
  refine ⟨?_, ?_, ?_⟩
  · intro hup
    have hsuspend := halts_suspend (v := v) (n := n)
      (halts_sleepFor_of_up (t := { t with irqMask := waking }) hroom hup)
    obtain ⟨houtcome, hcount⟩ := hrun (halts_waitAnyLoop_stop hup hsuspend)
    rw [Tile.take_of_up (t := { t with irqMask := waking }) hup] at houtcome
    exact ⟨hcount, houtcome⟩
  · intro hdown due hdue T seen k hn
    obtain ⟨rest, hrest, hends, hover⟩ := exists_halts_of_edge (v := v) budget
      hsolvent hroom hdown rfl hdue rfl rfl hn
    refine ⟨fun hfew ↦ ?_, fun hmany ↦ ?_⟩
    · obtain ⟨houtcome, hcount⟩ := hrun (hends hfew)
      obtain ⟨⟨e, he, hlines, rfl⟩, -⟩ := Schedule.nextEdge?_eq_some_iff.1 hdue
      have hfound : ((t.slept waking T k rest).reported ∩ m).isEmpty = false :=
        (Tile.isEmpty_reported_slept_iff hdown).2 ⟨e, he, hlines, Nat.le_max_right _ _⟩
      rw [Tile.take_of_up hfound, Tile.reported_slept hdown] at houtcome
      exact ⟨hcount, rest, hrest, houtcome⟩
    · obtain ⟨j, hj⟩ := hover hmany
      exact (hrun hj).1
  · intro hdown hnone k
    refine ⟨t.wakes_le_length waking, fun hn ↦ ?_⟩
    obtain ⟨hends, hover⟩ := halts_of_no_edge (v := v) budget hsolvent hroom hdown rfl hnone rfl hn
    refine ⟨fun hfew ↦ (hrun (hends hfew)).symm, fun hmany ↦ ?_⟩
    obtain ⟨j, hj⟩ := hover hmany
    exact (hrun hj).1

/-- The barrier is not reported, a timer wakes the hart, and the accelerator is done after both. -/
def dozing : Tile :=
  { Tile.initial with
    mask := Line.accDone.mask
    irqMask := Line.timer0.mask
    schedule := [⟨9, .edge Line.accDone.mask⟩, ⟨20, .edge Line.timer0.mask⟩,
      ⟨3, .edge Line.barrierDone.mask⟩, ⟨5, .edge Line.timer0.mask⟩] }

/-- The hart sleeps until 3, 5 and 9. -/
theorem waitAnyOf_asleep_dozing :
    let m := Line.accDone.mask ∪ Line.barrierDone.mask
    let run := platform.run ((waitAnyOf m .suspend .unbounded).program none 3) dozing
    run.events.countP Event.isSuspend = 3 ∧
    ∃ rest, rest.Perm [⟨20, .edge Line.timer0.mask⟩] ∧
      run.outcome = .returned (.ok Line.accDone.mask, 0) { dozing with
        now := 9
        buffer := Line.timer0.mask ∪ Line.barrierDone.mask
        irqMask := Line.timer0.mask ∪ m
        suspends := 3
        schedule := rest
        transfers := dozing.retired (dozing.schedule.dueBy 9)
        clears := [Line.accDone.mask] } := by
  intro m run
  have hsolvent : ∀ c, dozing.schedule.retirements c ≤
      (dozing.transfers c).issued - (dozing.transfers c).done := fun _ ↦ Nat.zero_le _
  have hdue : dozing.schedule.nextEdge? (dozing.mask ∩ m) = some 9 := by decide
  have hk : dozing.wakesBy (dozing.irqMask ∪ m) 9 = 3 := by decide
  have hlater : dozing.schedule.dueAfter 9 = [⟨20, .edge Line.timer0.mask⟩] := by decide
  have hseen : (dozing.schedule.dueBy 9).lines ∩ (dozing.mask ∩ m) = Line.accDone.mask := by decide
  have hbuffer : (dozing.buffer ∪ (dozing.schedule.dueBy 9).lines) \ Line.accDone.mask =
      Line.timer0.mask ∪ Line.barrierDone.mask := by decide
  obtain ⟨-, hedge, -⟩ :=
    waitAnyOf_asleep (m := m) none .unbounded 3 (by decide) hsolvent (by decide)
  obtain ⟨hends, -⟩ := hedge (by decide) 9 hdue (by decide)
  obtain ⟨hcount, rest, hrest, houtcome⟩ := hends (by decide)
  rw [show max dozing.now 9 = 9 from rfl, hk] at hcount houtcome
  rw [hseen, hbuffer] at houtcome
  exact ⟨hcount, rest, hlater ▸ hrest, houtcome⟩

/-- The sleeps of the hart have been counted to the end, and the accelerator is not done yet. -/
def sleepless : Tile :=
  { Tile.initial with
    mask := .all
    suspends := counterLimit - 1
    schedule := [⟨5, .edge Line.accDone.mask⟩] }

/-- It is not so that a wait returns whenever a reported line is going to come up: the sleep until
then may be one too many to count. -/
theorem not_forall_awoken :
    ¬ ∀ (t : Tile) (m : EventMask) (n due : Nat), m.isEmpty = false →
      (∀ c, t.schedule.retirements c ≤ (t.transfers c).issued - (t.transfers c).done) →
      t.clears.length < clearLogCapacity → (t.buffer ∩ (t.mask ∩ m)).isEmpty = true →
      t.schedule.nextEdge? (t.mask ∩ m) = some due →
      t.wakesBy (t.irqMask ∪ m) (max t.now due) ≤ n →
      ∃ seen n' t', (platform.run ((waitAnyOf m .suspend .unbounded).program none n) t).outcome =
        .returned (.ok seen, n') t' := by
  intro h
  obtain ⟨seen, n', t', hreturned⟩ := h sleepless Line.accDone.mask 1 5 (by decide)
    (fun _ ↦ Nat.zero_le _) (by decide) (by decide) (by decide) (by decide)
  have hfaulted : platform.Halts (waitAnyLoop Line.accDone.mask .suspend .unbounded) none 1
      sleepless 0 (.faulted .additionOverflow) :=
    halts_waitAnyLoop_overflow (by decide) (by decide) (by decide)
  rw [waitAnyOf_eq .suspend _ (by decide), hfaulted.spec.1] at hreturned
  exact nomatch hreturned

end EventUnit
end TileEvents
