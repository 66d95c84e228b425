import Mathlib.Data.List.Count
import TileEvents.Proofs.Life

/-!
# Single happenings

Seen from close up, the life of a tile is made of single happenings: a hart takes one action and is
answered, lines go up, something is scheduled, the clock of the event unit is switched
(`Happening`).  The clock of the tile moves only in some of them (`Happening.ticks`): when the
tile's own hart spins or sleeps, and when one of the two waiting registers is read while no reported
line is up.

Whatever moves the clock, and wherever to, does the same to the schedule.  Everything that is due by
then fires, and nothing else; and what does not move the clock fires nothing, not even what is due
at once (`Happening.Takes.effect`).  Lines go down only where software takes them down
(`Happening.takesDown`).
-/

set_option autoImplicit false

namespace TileEvents

theorem EventMask.sdiff_all (m : EventMask) : m \ all = ∅ := by
  refine ext_mem fun b ↦ ?_
  rw [mem_sdiff, mem_all]
  exact ⟨fun h ↦ absurd (lt_of_mem h.1) h.2, fun h ↦ absurd h (not_mem_empty b)⟩

/-- A read of the register may put the hart to sleep. -/
def EventUnit.Register.sleeps : Register → Bool
  | eventWait | eventWaitClear => true
  | _ => false

/-! ## Single happenings -/

/-- A hart that acts on a tile: its own, or one for which time stands still. -/
inductive Hart
  | own
  | still

def Hart.platform : Hart → Platform Tile
  | own => Tile.platform
  | still => Tile.stillPlatform

theorem Hart.isHart (hart : Hart) : Tile.IsHart hart.platform := by
  cases hart with
  | own => exact .inl rfl
  | still => exact .inr rfl

theorem Tile.IsHart.exists_hart {p : Platform Tile} (hp : IsHart p) :
    ∃ hart : Hart, p = hart.platform := by
  rcases hp with rfl | rfl
  · exact ⟨.own, rfl⟩
  · exact ⟨.still, rfl⟩

/-- Something that happens to a tile. -/
inductive Happening
  /-- A hart takes an action and is answered. -/
  | act (hart : Hart) (e : Event)
  /-- Lines go up. -/
  | raise (m : EventMask)
  /-- Something is going to happen. -/
  | schedule (s : Stimulus) (cycles : Nat)
  /-- The event unit's clock is switched. -/
  | setClock (on : Bool)

namespace Happening

/-- It can bring one tile to the other. -/
def Takes (t t' : Tile) : Happening → Prop
  | act hart e => ∃ action reply, hart.platform.answer action t = .ok (reply, t') ∧
      e = .ofReply action reply
  | raise m => t' = t.raise m
  | schedule s cycles => t.scheduleAfter s cycles = .ok t'
  | setClock on => t' = { t with clockOn := on }

/-- It moves the clock. -/
def ticks (t : Tile) : Happening → Bool
  | act .own (.spin _) => true
  | act .own .suspend => true
  | act _ (.read .eventUnit o _) =>
    (EventUnit.Register.ofOffset? o).any (·.sleeps) && t.reported.isEmpty
  | _ => false

/-- What it schedules. -/
def schedules (t : Tile) : Happening → Schedule
  | schedule s cycles => [⟨t.now + cycles, s⟩]
  | _ => []

/-- The lines that it raises without a schedule. -/
def raises : Happening → EventMask
  | raise m => m
  | _ => ∅

/-- The lines that it takes down: the ones that are written to the clearing register, and all of
them if the waiting register that clears is read. -/
def takesDown : Happening → EventMask
  | act _ (.write .eventUnit o value) =>
    if EventUnit.Register.ofOffset? o = some .bufferClear then ⟨value⟩ else ∅
  | act _ (.read .eventUnit o _) =>
    if EventUnit.Register.ofOffset? o = some .eventWaitClear then .all else ∅
  | _ => ∅

/-- What takes a line down. -/
theorem exists_of_mem_takesDown {h : Happening} {b : Nat} (hb : b ∈ h.takesDown) :
    ∃ hart o value,
      (EventUnit.Register.ofOffset? o = some .bufferClear ∧
        h = act hart (.write .eventUnit o value) ∧ b ∈ (⟨value⟩ : EventMask)) ∨
      (EventUnit.Register.ofOffset? o = some .eventWaitClear ∧
        h = act hart (.read .eventUnit o value)) := by
  rw [takesDown.eq_def] at hb
  split at hb
  · next hart o value =>
    split at hb
    · next hr => exact ⟨hart, o, value, .inl ⟨hr, rfl, hb⟩⟩
    · exact absurd hb (EventMask.not_mem_empty b)
  · next hart o value =>
    split at hb
    · next hr => exact ⟨hart, o, value, .inr ⟨hr, rfl⟩⟩
    · exact absurd hb (EventMask.not_mem_empty b)
  · exact absurd hb (EventMask.not_mem_empty b)

/-- What something that happens does to a tile while these entries fire. -/
structure Effect (h : Happening) (t : Tile) (fired : Schedule) (t' : Tile) : Prop where
  /-- Entries that were there or were scheduled have fired or are left. -/
  perm : (t.schedule ++ h.schedules t).Perm (fired ++ t'.schedule)
  /-- Only moves of the clock fire anything, and only what is due then. -/
  due : ∀ e ∈ fired, h.ticks t = true ∧ e.due ≤ t'.now
  now_le : t.now ≤ t'.now
  /-- Where the clock is moved, nothing is left that is due. -/
  later : h.ticks t = true → ∀ e ∈ t'.schedule, t'.now < e.due
  /-- Otherwise it stands still. -/
  still : h.ticks t = false → t'.now = t.now
  buffer : t'.buffer = (t.buffer ∪ fired.lines ∪ h.raises) \ h.takesDown
  done : ∀ c, (t'.transfers c).done = (t.transfers c).done + fired.retirements c

section Effect

variable {h : Happening} {t t' u : Tile}

/-- Nothing has fired. -/
theorem Effect.of_still (hticks : h.ticks t = false)
    (hschedule : t'.schedule = t.schedule ++ h.schedules t) (hnow : t'.now = t.now)
    (hbuffer : t'.buffer = (t.buffer ∪ h.raises) \ h.takesDown)
    (hdone : ∀ c, (t'.transfers c).done = (t.transfers c).done) : h.Effect t [] t' where
  perm := .of_eq hschedule.symm
  due _ he := absurd he List.not_mem_nil
  now_le := Nat.le_of_eq hnow.symm
  later h := absurd (hticks.symm.trans h) Bool.false_ne_true
  still _ := hnow
  buffer := by rw [hbuffer, Schedule.lines_nil, EventMask.union_empty]
  done := hdone

/-- Nothing has happened to what is scheduled, the clock, the lines and the transfers. -/
theorem Effect.of_same (hticks : h.ticks t = false) (hschedules : h.schedules t = [])
    (hraises : h.raises = ∅) (htakesDown : h.takesDown = ∅) (hschedule : t'.schedule = t.schedule)
    (hnow : t'.now = t.now) (hbuffer : t'.buffer = t.buffer)
    (hdone : ∀ c, (t'.transfers c).done = (t.transfers c).done) : h.Effect t [] t' :=
  .of_still hticks (by rw [hschedule, hschedules, List.append_nil]) hnow
    (by rw [hbuffer, hraises, htakesDown, EventMask.union_empty, EventMask.sdiff_empty]) hdone

/-- The clock has moved, and then lines may have been taken down. -/
theorem Effect.of_passes (hpasses : Tile.Passes t u) (hticks : h.ticks t = true)
    (hschedules : h.schedules t = []) (hraises : h.raises = ∅)
    (hschedule : t'.schedule = u.schedule) (hnow : t'.now = u.now)
    (hbuffer : t'.buffer = u.buffer \ h.takesDown) (htransfers : t'.transfers = u.transfers) :
    h.Effect t (t.schedule.dueBy t'.now) t' where
  perm := by
    rw [hschedules, List.append_nil, hschedule, hnow]
    exact hpasses.fired.1
  due _ he := ⟨hticks, (Schedule.mem_dueBy.1 he).2⟩
  now_le := hnow ▸ hpasses.now_le
  later _ := by
    rw [hschedule, hnow]
    exact hpasses.later
  still h := absurd (hticks.symm.trans h) Bool.false_ne_true.symm
  buffer := by rw [hbuffer, hpasses.buffer, hraises, EventMask.union_empty, hnow]
  done c := by rw [htransfers, hpasses.transfers, hnow, Tile.retired]

/-- What fires in it: all that is due if the clock is moved, and nothing otherwise. -/
def fires (t t' : Tile) (h : Happening) : Schedule :=
  if h.ticks t then t.schedule.dueBy t'.now else []

theorem fires_of_ticks (hticks : h.ticks t = true) : h.fires t t' = t.schedule.dueBy t'.now :=
  if_pos hticks

theorem fires_of_not_ticks (hticks : h.ticks t = false) : h.fires t t' = [] :=
  if_neg (Bool.eq_false_iff.1 hticks)

variable {hart : Hart} {o : Nat} {value : UInt32}

theorem ticks_read :
    (act hart (.read .eventUnit o value)).ticks t =
      ((EventUnit.Register.ofOffset? o).any (·.sleeps) && t.reported.isEmpty) := by
  cases hart <;> rfl

/-- A read of a waiting register moves the clock, or a reported line is up already. -/
theorem effect_of_eventWait {r : EventUnit.Register}
    (hr : EventUnit.Register.ofOffset? o = some r) (hsleeps : r.sleeps = true)
    (hwait : t.eventWait = .ok u)
    (ht' : t' = { u with
      buffer := u.buffer \ (act hart (.read .eventUnit o value)).takesDown }) :
    (act hart (.read .eventUnit o value)).Effect t
      ((act hart (.read .eventUnit o value)).fires t t') t' := by
  have hticks : (act hart (.read .eventUnit o value)).ticks t = t.reported.isEmpty := by
    rw [ticks_read, hr, Option.any_some, hsleeps, Bool.true_and]
  subst ht'
  rw [Tile.eventWait] at hwait
  split at hwait
  · next hdown =>
    -- what is up when the clock has stopped may be taken down then, but not before
    obtain ⟨due, -, -, hpasses⟩ := Tile.passes_sleepUntil hwait
    rw [fires_of_ticks (hticks.trans hdown)]
    exact .of_passes hpasses (hticks.trans hdown) rfl rfl rfl rfl rfl rfl
  · next hup =>
    obtain rfl := Except.ok.inj hwait
    have hstill := hticks.trans (Bool.eq_false_iff.2 hup)
    rw [fires_of_not_ticks hstill]
    refine .of_still hstill (List.append_nil _).symm rfl ?_ fun _ ↦ rfl
    have hraises : (act hart (.read .eventUnit o value)).raises = ∅ := rfl
    rw [hraises, EventMask.union_empty]

theorem effect_readUnit (h : t.readUnit o = .ok (value, t')) :
    (act hart (.read .eventUnit o value)).Effect t
      ((act hart (.read .eventUnit o value)).fires t t') t' := by
  cases hr : EventUnit.Register.ofOffset? o with
  | none =>
    rw [Tile.readUnit, hr] at h
    cases h
  | some r =>
    have htakesDown : (act hart (.read .eventUnit o value)).takesDown =
        if some r = some .eventWaitClear then .all else ∅ := by rw [takesDown, hr]
    rw [Tile.readUnit, hr] at h
    cases r with
    | maskAnd | maskOr | irqMaskAnd | irqMaskOr | bufferClear | swMaskAnd | swMaskOr | trigger =>
      cases h
    | eventWait =>
      obtain ⟨u, hwait, heq⟩ := Tile.exists_of_bind h
      obtain ⟨-, rfl⟩ := Prod.mk.inj heq
      refine effect_of_eventWait hr rfl hwait ?_
      rw [htakesDown, if_neg (by simp), EventMask.sdiff_empty]
    | eventWaitClear =>
      obtain ⟨u, hwait, heq⟩ := Tile.exists_of_bind h
      obtain ⟨-, rfl⟩ := Prod.mk.inj heq
      refine effect_of_eventWait hr rfl hwait ?_
      rw [htakesDown, if_pos rfl, EventMask.sdiff_all]
    | _ =>
      have hstill : (act hart (.read .eventUnit o value)).ticks t = false := by
        rw [ticks_read, hr, Option.any_some]
        rfl
      obtain ⟨-, rfl⟩ := Prod.mk.inj (Except.ok.inj h)
      rw [fires_of_not_ticks hstill]
      exact .of_same hstill rfl rfl (htakesDown.trans (if_neg (by simp))) rfl rfl rfl fun _ ↦ rfl

theorem effect_readDma (h : t.readDma o = .ok (value, t')) :
    (act hart (.read .dma o value)).Effect t
      ((act hart (.read .dma o value)).fires t t') t' := by
  have hstill : (act hart (.read .dma o value)).ticks t = false := by cases hart <;> rfl
  rw [fires_of_not_ticks hstill]
  cases hr : Dma.Register.ofOffset? o with
  | none =>
    rw [Tile.readDma, hr] at h
    cases h
  | some r =>
    obtain ⟨bank, c⟩ := r
    rw [Tile.readDma, hr] at h
    cases bank with
    | status | doneId =>
      obtain ⟨-, rfl⟩ := Prod.mk.inj (Except.ok.inj h)
      exact .of_same hstill rfl rfl rfl rfl rfl rfl fun _ ↦ rfl
    | nextId =>
      dsimp only at h
      split at h
      · obtain ⟨-, rfl⟩ := Prod.mk.inj (Except.ok.inj h)
        refine .of_same hstill rfl rfl rfl rfl rfl rfl fun c' ↦ ?_
        by_cases hc : c' = c
        · rw [hc, Tile.transfers_setTransfers_self]
        · rw [Tile.transfers_setTransfers_of_ne t _ hc]
      · cases h

theorem effect_writeUnit (h : t.writeUnit o value = .ok t') :
    (act hart (.write .eventUnit o value)).Effect t
      ((act hart (.write .eventUnit o value)).fires t t') t' := by
  have hstill : (act hart (.write .eventUnit o value)).ticks t = false := by cases hart <;> rfl
  rw [fires_of_not_ticks hstill]
  cases hr : EventUnit.Register.ofOffset? o with
  | none =>
    rw [Tile.writeUnit, hr] at h
    cases h
  | some r =>
    have htakesDown : (act hart (.write .eventUnit o value)).takesDown =
        if some r = some .bufferClear then ⟨value⟩ else ∅ := by rw [takesDown, hr]
    rw [Tile.writeUnit, hr] at h
    cases r with
    | status | buffer | bufferMasked | bufferIrqMasked | eventWait | eventWaitClear | triggerWait =>
      cases h
    | bufferClear =>
      dsimp only at h
      split at h
      · obtain rfl := Except.ok.inj h
        refine .of_still hstill (List.append_nil _).symm rfl ?_ fun _ ↦ rfl
        have hraises : (act hart (.write .eventUnit o value)).raises = ∅ := rfl
        rw [htakesDown, if_pos rfl, hraises, EventMask.union_empty]
      · cases h
    | _ =>
      obtain rfl := Except.ok.inj h
      exact .of_same hstill rfl rfl (htakesDown.trans (if_neg (by simp))) rfl rfl rfl fun _ ↦ rfl

/-- What is scheduled is not due yet, and does not happen even if it is due at once. -/
theorem effect_scheduleAfter {s : Stimulus} {cycles : Nat} (h : t.scheduleAfter s cycles = .ok t') :
    (schedule s cycles).Effect t [] t' := by
  rw [Tile.of_scheduleAfter h]
  refine .of_still rfl rfl rfl ?_ fun _ ↦ rfl
  have hraises : (schedule s cycles).raises = ∅ := rfl
  have htakesDown : (schedule s cycles).takesDown = ∅ := rfl
  rw [hraises, htakesDown, EventMask.union_empty, EventMask.sdiff_empty]

/-- **What moves the clock fires all that is due, and nothing else fires anything.** -/
theorem Takes.effect {h : Happening} (ht : h.Takes t t') : h.Effect t (h.fires t t') t' := by
  cases h with
  | act hart e =>
    obtain ⟨action, reply, hanswer, rfl⟩ := ht
    obtain ⟨hread, hwrite⟩ := hart.isHart.registers
    cases action with
    | read w o =>
      replace hanswer : hart.platform.read w o t = .ok (reply, t') := hanswer
      rw [hread] at hanswer
      cases w with
      | eventUnit => exact effect_readUnit hanswer
      | dma => exact effect_readDma hanswer
    | write w o value =>
      replace hanswer := Platform.answer_write_iff.1 hanswer
      rw [hwrite] at hanswer
      cases w with
      | eventUnit => exact effect_writeUnit hanswer
      | dma => cases hanswer
    | spin cycles =>
      replace hanswer := Platform.answer_spin_iff.1 hanswer
      cases hart with
      | own =>
        exact .of_passes (Tile.passes_advance hanswer).2 rfl rfl rfl rfl rfl
          (EventMask.sdiff_empty _).symm rfl
      | still =>
        -- this hart spins without letting time pass
        obtain rfl := Except.ok.inj hanswer
        exact .of_same rfl rfl rfl rfl rfl rfl rfl fun _ ↦ rfl
    | suspend =>
      replace hanswer := Platform.answer_suspend_iff.1 hanswer
      cases hart with
      | own =>
        obtain ⟨due, -, -, hpasses⟩ := Tile.passes_suspend hanswer
        exact .of_passes hpasses rfl rfl rfl rfl rfl (EventMask.sdiff_empty _).symm rfl
      | still =>
        obtain rfl := Except.ok.inj hanswer
        exact .of_same rfl rfl rfl rfl rfl rfl rfl fun _ ↦ rfl
    | report severity text =>
      obtain ⟨-, rfl⟩ := Prod.mk.inj (Except.ok.inj hanswer)
      have hstill : (act hart (.report severity text)).ticks t = false := by cases hart <;> rfl
      show Effect _ t (fires t t (act hart (.report severity text))) t
      rw [fires_of_not_ticks hstill]
      exact .of_same hstill rfl rfl rfl rfl rfl rfl fun _ ↦ rfl
  | raise m =>
    obtain rfl : t' = t.raise m := ht
    exact .of_still rfl (List.append_nil _).symm rfl (EventMask.sdiff_empty _).symm fun _ ↦ rfl
  | schedule s cycles => exact effect_scheduleAfter ht
  | setClock on =>
    obtain rfl : t' = { t with clockOn := on } := ht
    exact .of_same rfl rfl rfl rfl rfl rfl rfl fun _ ↦ rfl

/-! ## What this is for the entries of the schedule -/

variable {fired fired' : Schedule} {e : Entry}

theorem schedules_of_ticks (hticks : h.ticks t = true) : h.schedules t = [] := by
  cases h with
  | schedule s cycles => cases hticks
  | _ => rfl

/-- What is scheduled is not overdue. -/
theorem now_le_of_mem_schedules (he : e ∈ h.schedules t) : t.now ≤ e.due := by
  cases h with
  | schedule s cycles =>
    obtain rfl := List.mem_singleton.1 he
    exact Nat.le_add_right _ _
  | _ => exact absurd he List.not_mem_nil

namespace Effect

/-- The order in which entries have fired is of no account. -/
theorem of_perm (hfired : h.Effect t fired t') (hperm : fired.Perm fired') :
    h.Effect t fired' t' where
  perm := hfired.perm.trans (hperm.append_right _)
  due e he := hfired.due e (hperm.mem_iff.2 he)
  now_le := hfired.now_le
  later := hfired.later
  still := hfired.still
  buffer := by rw [hfired.buffer, Schedule.lines_perm hperm]
  done c := by rw [hfired.done, Schedule.retirements_perm hperm]

/-- What has fired is what the schedule has lost. -/
theorem perm_diff (hfired : h.Effect t fired t') :
    fired.Perm ((t.schedule ++ h.schedules t).diff t'.schedule) := by
  refine List.perm_iff_count.2 fun e ↦ ?_
  rw [List.count_diff, hfired.perm.count_eq, List.count_append, Nat.add_sub_cancel]

/-- **An entry waits until the clock gets to its time.** -/
theorem waits (hfired : h.Effect t fired t') (he : e ∈ t.schedule ++ h.schedules t)
    (hnot : ¬ (h.ticks t = true ∧ e.due ≤ t'.now)) : e ∉ fired ∧ e ∈ t'.schedule := by
  have hnone : e ∉ fired := fun hmem ↦ hnot (hfired.due e hmem)
  rcases List.mem_append.1 (hfired.perm.mem_iff.1 he) with hmem | hmem
  · exact absurd hmem hnone
  · exact ⟨hnone, hmem⟩

/-- **Then it fires**, as often as it is in the schedule, and is left there no more. -/
theorem count_fired (hfired : h.Effect t fired t') (hticks : h.ticks t = true)
    (hdue : e.due ≤ t'.now) : fired.count e = t.schedule.count e ∧ e ∉ t'.schedule := by
  have hgone : e ∉ t'.schedule := fun he ↦ Nat.not_lt_of_le hdue (hfired.later hticks e he)
  have hcount := hfired.perm.count_eq e
  rw [schedules_of_ticks hticks, List.append_nil, List.count_append,
    List.count_eq_zero_of_not_mem hgone, Nat.add_zero] at hcount
  exact ⟨hcount.symm, hgone⟩

/-- Nothing is ever overdue. -/
theorem now_le_due (hfired : h.Effect t fired t') (hdue : ∀ e ∈ t.schedule, t.now ≤ e.due) :
    ∀ e ∈ t'.schedule, t'.now ≤ e.due := by
  intro e he
  cases hticks : h.ticks t with
  | true => exact Nat.le_of_lt (hfired.later hticks e he)
  | false =>
    rw [hfired.still hticks]
    rcases List.mem_append.1 (hfired.perm.mem_iff.2 (List.mem_append_right _ he)) with he | he
    · exact hdue e he
    · exact now_le_of_mem_schedules he

/-- A line that has gone down was taken down. -/
theorem mem_takesDown (hfired : h.Effect t fired t') {b : Nat} (hup : b ∈ t.buffer)
    (hdown : ¬ b ∈ t'.buffer) : b ∈ h.takesDown := by
  rw [hfired.buffer, EventMask.mem_sdiff, EventMask.mem_union, EventMask.mem_union] at hdown
  by_contra hkept
  exact hdown ⟨.inl (.inl hup), hkept⟩

end Effect
end Effect

end Happening
end TileEvents
