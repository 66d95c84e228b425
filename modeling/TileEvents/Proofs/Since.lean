import TileEvents.Proofs.Arrivals
import TileEvents.Proofs.Walk
import TileEvents.Tile.Hardware

/-!
# What can have come up since

A program can do many things to a tile, and raw accesses can do more, but none of them makes a line
come up or a transfer retire.  A line is up on a later tile only if it was up before or the schedule
has raised it meanwhile, and as many transfers have retired as the schedule has had retire
(`Tile.Since`), whichever of the two harts was driven, and however.

Lines are taken out of the masks by writes to four registers only (`Event.Narrows`).  Where there is
no such write, what was reported is still reported and what woke the hart still wakes it
(`Tile.Kept`).  Transfers are started by reads of one bank of registers only (`Event.launched?`),
one by each, and no counter comes round to 0 (`Tile.Issues`).

All of this is shown of one answer of a tile (`Tile.leaves_answer`) and then holds of every walk
(`Tile.leaves_walk`).
-/

set_option autoImplicit false

namespace TileEvents

/-- Lines may be taken out of the masks by a write to this register. -/
def EventUnit.Register.narrows : Register → Bool
  | mask | maskAnd | irqMask | irqMaskAnd => true
  | _ => false

/-- Lines may be taken out of the masks. -/
def Event.Narrows : Event → Prop
  | write .eventUnit o _ => ∃ r, EventUnit.Register.ofOffset? o = some r ∧ r.narrows = true
  | _ => False

/-- The channel on which a transfer is started. -/
def Event.launched? : Event → Option Channel
  | read .dma o _ =>
    match Dma.Register.ofOffset? o with
    | some ⟨.nextId, c⟩ => some c
    | _ => none
  | _ => none

/-- No more transfers have retired than were started, and those can be counted. -/
structure Transfers.Counted (x : Transfers) : Prop where
  done_le : x.done ≤ x.issued
  issued_lt : x.issued < counterLimit

namespace Tile

/-- The later tile has come from the earlier one while these entries have fired, and nothing else
has come up or retired. -/
structure Since (t : Tile) (fired : Schedule) (t' : Tile) : Prop where
  perm : t.schedule.Perm (fired ++ t'.schedule)
  due : ∀ e ∈ fired, e.due ≤ t'.now
  now_le : t.now ≤ t'.now
  buffer : t'.buffer ⊆ t.buffer ∪ fired.lines
  done : ∀ c, (t'.transfers c).done = (t.transfers c).done + fired.retirements c

/-- Nothing was taken out of the masks. -/
structure Kept (t t' : Tile) : Prop where
  mask : t.mask ⊆ t'.mask
  irqMask : t.irqMask ⊆ t'.irqMask

/-- The transfers of every channel are counted. -/
def Counted (t : Tile) : Prop := ∀ c, (t.transfers c).Counted

/-- Transfers were started on these channels and on no others. -/
structure Issues (t : Tile) (launched : List Channel) (t' : Tile) : Prop where
  issued : ∀ c, (t'.transfers c).issued = (t.transfers c).issued + launched.count c
  counted : t.Counted → t'.Counted

/-- What an event leaves of a tile. -/
structure Leaves (t : Tile) (e : Event) (t' : Tile) : Prop where
  since : ∃ fired, Since t fired t'
  kept : ¬ e.Narrows → Kept t t'
  issues : Issues t e.launched?.toList t'

section Since

variable {t t' t'' : Tile} {fired fired' : Schedule}

/-- Nothing has fired. -/
theorem Since.of_same (hschedule : t'.schedule = t.schedule) (hnow : t'.now = t.now)
    (hbuffer : t'.buffer ⊆ t.buffer)
    (hdone : ∀ c, (t'.transfers c).done = (t.transfers c).done) : Since t [] t' where
  perm := .of_eq hschedule.symm
  due _ he := absurd he List.not_mem_nil
  now_le := Nat.le_of_eq hnow.symm
  buffer := by rwa [Schedule.lines_nil, EventMask.union_empty]
  done := hdone

theorem Since.refl (t : Tile) : Since t [] t :=
  .of_same rfl rfl (EventMask.subset_refl _) fun _ ↦ rfl

theorem Since.trans (h : Since t fired t') (h' : Since t' fired' t'') :
    Since t (fired ++ fired') t'' where
  perm := by
    rw [List.append_assoc]
    exact h.perm.trans (h'.perm.append_left fired)
  due e he := by
    rcases List.mem_append.1 he with he | he
    · exact Nat.le_trans (h.due e he) h'.now_le
    · exact h'.due e he
  now_le := Nat.le_trans h.now_le h'.now_le
  buffer := by
    rw [Schedule.lines_append, ← EventMask.union_assoc]
    refine EventMask.subset_iff.2 fun b hb ↦ ?_
    have hsub := EventMask.subset_iff.1 h.buffer b
    have hsub' := EventMask.mem_union.1 (EventMask.subset_iff.1 h'.buffer b hb)
    exact EventMask.mem_union.2 (hsub'.imp_left hsub)
  done c := by rw [h'.done, h.done, Schedule.retirements_append, Nat.add_assoc]

/-- What is due fires when the clock is moved. -/
theorem Passes.since (h : Passes t t') : Since t (t.schedule.dueBy t'.now) t' where
  perm := h.fired.1
  due _ he := (Schedule.mem_dueBy.1 he).2
  now_le := h.now_le
  buffer := by
    rw [h.buffer]
    exact EventMask.subset_refl _
  done c := by rw [h.transfers, retired]

theorem Kept.refl (t : Tile) : Kept t t := ⟨EventMask.subset_refl _, EventMask.subset_refl _⟩

theorem Kept.trans (h : Kept t t') (h' : Kept t' t'') : Kept t t'' :=
  ⟨EventMask.subset_trans h.mask h'.mask, EventMask.subset_trans h.irqMask h'.irqMask⟩

theorem Kept.of_eq (hmask : t'.mask = t.mask) (hirqMask : t'.irqMask = t.irqMask) : Kept t t' :=
  ⟨hmask ▸ EventMask.subset_refl _, hirqMask ▸ EventMask.subset_refl _⟩

theorem Passes.kept (h : Passes t t') : Kept t t' := .of_eq h.mask h.irqMask

/-- Nothing was started. -/
theorem Issues.of_same (h : t'.transfers = t.transfers) : Issues t [] t' where
  issued c := by rw [h, List.count_nil, Nat.add_zero]
  counted hcounted c := h ▸ hcounted c

theorem Issues.trans {launched launched' : List Channel} (h : Issues t launched t')
    (h' : Issues t' launched' t'') : Issues t (launched ++ launched') t'' where
  issued c := by rw [h'.issued, h.issued, List.count_append, Nat.add_assoc]
  counted hcounted := h'.counted (h.counted hcounted)

/-- What retires has been started. -/
theorem Passes.issues (h : Passes t t') : Issues t [] t' where
  issued c := by rw [h.transfers, retired, List.count_nil, Nat.add_zero]
  counted hcounted c := by
    have hle := (hcounted c).done_le
    have hsolvent := h.solvent c
    rw [h.transfers]
    exact ⟨by show (t.transfers c).done + _ ≤ (t.transfers c).issued; omega, (hcounted c).issued_lt⟩

/-! ## One answer -/

/-- Time may have passed, and nothing else has happened. -/
structure Lapses (t t' : Tile) : Prop where
  since : ∃ fired, Since t fired t'
  kept : Kept t t'
  issues : Issues t [] t'

/-- What does not start a transfer leaves at least as much as that. -/
theorem Lapses.leaves {e : Event} (h : Lapses t t') (he : e.launched? = none) : Leaves t e t' where
  since := h.since
  kept _ := h.kept
  issues := by
    rw [he]
    exact h.issues

theorem Passes.lapses (h : Passes t t') : Lapses t t' := ⟨⟨_, h.since⟩, h.kept, h.issues⟩

/-- Nothing has happened to the clock, the lines, the masks and the transfers. -/
theorem Lapses.of_still (hschedule : t'.schedule = t.schedule) (hnow : t'.now = t.now)
    (hbuffer : t'.buffer ⊆ t.buffer) (hmask : t'.mask = t.mask) (hirqMask : t'.irqMask = t.irqMask)
    (htransfers : t'.transfers = t.transfers) : Lapses t t' :=
  ⟨⟨[], .of_same hschedule hnow hbuffer fun c ↦ by rw [htransfers]⟩, .of_eq hmask hirqMask,
    .of_same htransfers⟩

theorem Lapses.refl (t : Tile) : Lapses t t :=
  .of_still rfl rfl (EventMask.subset_refl _) rfl rfl rfl

theorem Lapses.trans (h : Lapses t t') (h' : Lapses t' t'') : Lapses t t'' := by
  obtain ⟨fired, hsince⟩ := h.since
  obtain ⟨fired', hsince'⟩ := h'.since
  exact ⟨⟨_, hsince.trans hsince'⟩, h.kept.trans h'.kept, h.issues.trans h'.issues⟩

/-- The event unit's own sleep is a move of the clock, or none. -/
theorem lapses_eventWait (h : t.eventWait = .ok t') : Lapses t t' := by
  rw [eventWait] at h
  split at h
  · obtain ⟨due, -, -, hpasses⟩ := passes_sleepUntil h
    exact hpasses.lapses
  · obtain rfl := Except.ok.inj h
    exact .refl t

theorem exists_of_bind {α : Type} {x : Except Fault Tile} {f : Tile → α} {a : α}
    (h : (x >>= fun t ↦ pure (f t)) = .ok a) : ∃ t, x = .ok t ∧ f t = a := by
  cases x with
  | error f => exact nomatch h
  | ok t => exact ⟨t, rfl, Except.ok.inj h⟩

/-- A read raises nothing, but the event unit may sleep meanwhile. -/
theorem lapses_readUnit {o : Nat} {value : UInt32} (h : t.readUnit o = .ok (value, t')) :
    Lapses t t' := by
  cases hr : EventUnit.Register.ofOffset? o with
  | none =>
    rw [readUnit, hr] at h
    exact nomatch h
  | some r =>
    rw [readUnit, hr] at h
    cases r with
    | maskAnd | maskOr | irqMaskAnd | irqMaskOr | bufferClear | swMaskAnd | swMaskOr | trigger =>
      exact nomatch h
    | eventWait =>
      obtain ⟨t₁, hwait, heq⟩ := exists_of_bind h
      obtain ⟨-, rfl⟩ := Prod.mk.inj heq
      exact lapses_eventWait hwait
    | eventWaitClear =>
      obtain ⟨t₁, hwait, heq⟩ := exists_of_bind h
      obtain ⟨-, rfl⟩ := Prod.mk.inj heq
      exact (lapses_eventWait hwait).trans
        (.of_still rfl rfl (EventMask.empty_subset _) rfl rfl rfl)
    | _ =>
      obtain ⟨-, rfl⟩ := Prod.mk.inj (Except.ok.inj h)
      exact .of_still rfl rfl (EventMask.subset_refl _) rfl rfl rfl

/-- A transfer is started. -/
theorem issues_setTransfers {c : Channel} (h : (t.transfers c).issued + 1 < counterLimit) :
    Issues t [c]
      (t.setTransfers c { t.transfers c with issued := (t.transfers c).issued + 1 }) where
  issued c' := by
    rw [List.count_singleton]
    by_cases hc : c' = c
    · rw [hc, transfers_setTransfers_self, beq_self_eq_true, if_pos rfl]
    · rw [transfers_setTransfers_of_ne t _ hc, if_neg (by simpa using Ne.symm hc), Nat.add_zero]
  counted hcounted c' := by
    by_cases hc : c' = c
    · rw [hc, transfers_setTransfers_self]
      exact ⟨Nat.le_succ_of_le (hcounted c).done_le, h⟩
    · rw [transfers_setTransfers_of_ne t _ hc]
      exact hcounted c'

theorem since_setTransfers (t : Tile) (c : Channel) {x : Transfers}
    (h : x.done = (t.transfers c).done) : Since t [] (t.setTransfers c x) := by
  refine .of_same rfl rfl (EventMask.subset_refl _) fun c' ↦ ?_
  by_cases hc : c' = c
  · rw [hc, transfers_setTransfers_self, h]
  · rw [transfers_setTransfers_of_ne t _ hc]

/-- What reads of the data mover do: they start transfers, and nothing else. -/
theorem leaves_readDma {o : Nat} {value : UInt32} (h : t.readDma o = .ok (value, t')) :
    Leaves t (.read .dma o value) t' := by
  cases hr : Dma.Register.ofOffset? o with
  | none =>
    rw [readDma, hr] at h
    exact nomatch h
  | some r =>
    obtain ⟨bank, c⟩ := r
    rw [readDma, hr] at h
    cases bank with
    | status | doneId =>
      obtain ⟨-, rfl⟩ := Prod.mk.inj (Except.ok.inj h)
      exact (Lapses.refl t).leaves (by rw [Event.launched?, hr])
    | nextId =>
      dsimp only at h
      split at h
      · next hlt =>
        obtain ⟨-, rfl⟩ := Prod.mk.inj (Except.ok.inj h)
        have hlaunched : (Event.read .dma o value).launched? = some c := by
          rw [Event.launched?, hr]
        refine ⟨⟨[], since_setTransfers t c rfl⟩, fun _ ↦ .of_eq rfl rfl, ?_⟩
        rw [hlaunched]
        exact issues_setTransfers hlt
      · exact nomatch h

/-- A write leaves the clock, the schedule and the transfers alone. -/
theorem Leaves.of_write {w : Window} {o : Nat} {value : UInt32}
    (hschedule : t'.schedule = t.schedule) (hnow : t'.now = t.now) (hbuffer : t'.buffer ⊆ t.buffer)
    (htransfers : t'.transfers = t.transfers)
    (hkept : ¬ (Event.write w o value).Narrows → Kept t t') : Leaves t (.write w o value) t' :=
  ⟨⟨[], .of_same hschedule hnow hbuffer fun c ↦ by rw [htransfers]⟩, hkept, .of_same htransfers⟩

/-- A write raises nothing, and what it writes to decides what becomes of the masks. -/
theorem leaves_writeUnit {o : Nat} {value : UInt32} (h : t.writeUnit o value = .ok t') :
    Leaves t (.write .eventUnit o value) t' := by
  cases hr : EventUnit.Register.ofOffset? o with
  | none =>
    rw [writeUnit, hr] at h
    exact nomatch h
  | some r =>
    rw [writeUnit, hr] at h
    cases r with
    | status | buffer | bufferMasked | bufferIrqMasked | eventWait | eventWaitClear | triggerWait =>
      exact nomatch h
    | mask | maskAnd | irqMask | irqMaskAnd =>
      obtain rfl := Except.ok.inj h
      exact .of_write rfl rfl (EventMask.subset_refl _) rfl
        fun hwide ↦ absurd ⟨_, hr, rfl⟩ hwide
    | maskOr =>
      obtain rfl := Except.ok.inj h
      exact .of_write rfl rfl (EventMask.subset_refl _) rfl
        fun _ ↦ ⟨EventMask.subset_union_left _ _, EventMask.subset_refl _⟩
    | irqMaskOr =>
      obtain rfl := Except.ok.inj h
      exact .of_write rfl rfl (EventMask.subset_refl _) rfl
        fun _ ↦ ⟨EventMask.subset_refl _, EventMask.subset_union_left _ _⟩
    | bufferClear =>
      dsimp only at h
      split at h
      · obtain rfl := Except.ok.inj h
        exact .of_write rfl rfl (EventMask.sdiff_subset _ _) rfl fun _ ↦ .of_eq rfl rfl
      · exact nomatch h
    | swMask | swMaskAnd | swMaskOr | trigger =>
      obtain rfl := Except.ok.inj h
      exact .of_write rfl rfl (EventMask.subset_refl _) rfl fun _ ↦ .of_eq rfl rfl

/-- **What any answer of a tile leaves of it.** -/
theorem leaves_answer {p : Platform Tile} (hp : IsHart p) {a : Action} {r : a.Reply}
    (h : p.answer a t = .ok (r, t')) : Leaves t (.ofReply a r) t' := by
  obtain ⟨hread, hwrite⟩ := hp.registers
  cases a with
  | read w o =>
    replace h : p.read w o t = .ok (r, t') := h
    rw [hread] at h
    cases w with
    | eventUnit => exact (lapses_readUnit h).leaves rfl
    | dma => exact leaves_readDma h
  | write w o value =>
    replace h := Platform.answer_write_iff.1 h
    rw [hwrite] at h
    cases w with
    | eventUnit => exact leaves_writeUnit h
    | dma => exact nomatch h
  | spin cycles =>
    replace h := Platform.answer_spin_iff.1 h
    refine Lapses.leaves ?_ rfl
    rcases hp with rfl | rfl
    · exact (passes_advance h).2.lapses
    · obtain rfl := Except.ok.inj h
      exact .refl t
  | suspend =>
    replace h := Platform.answer_suspend_iff.1 h
    refine Lapses.leaves ?_ rfl
    rcases hp with rfl | rfl
    · obtain ⟨due, -, -, hpasses⟩ := passes_suspend h
      exact hpasses.lapses
    · obtain rfl := Except.ok.inj h
      exact .refl t
  | report severity text =>
    obtain ⟨-, rfl⟩ := Prod.mk.inj (Except.ok.inj h)
    exact (Lapses.refl t).leaves rfl

/-! ## A whole walk -/

/-- The channels on which transfers are started, in order. -/
def launchedIn (ms : List (Moment Tile)) : List Channel := ms.filterMap (·.event.launched?)

theorem launchedIn_cons (m : Moment Tile) (ms : List (Moment Tile)) :
    launchedIn (m :: ms) = m.event.launched?.toList ++ launchedIn ms := by
  rw [launchedIn, List.filterMap_cons]
  cases m.event.launched? <;> rfl

/-- **What any walk leaves of a tile.** -/
theorem leaves_walk {p : Platform Tile} (hp : IsHart p) {ms : List (Moment Tile)}
    (h : p.Walk t ms t') :
    (∃ fired, Since t fired t') ∧ ((∀ m ∈ ms, ¬ m.event.Narrows) → Kept t t') ∧
      Issues t (launchedIn ms) t' := by
  induction h with
  | rest t => exact ⟨⟨[], .refl t⟩, fun _ ↦ .refl t, .of_same rfl⟩
  | step h _ ih =>
    obtain ⟨⟨fired, hsince⟩, hkept, hissues⟩ := leaves_answer hp h
    obtain ⟨⟨fired', hsince'⟩, hkept', hissues'⟩ := ih
    refine ⟨⟨_, hsince.trans hsince'⟩, fun hwide ↦ ?_, ?_⟩
    · exact (hkept (hwide _ (.head _))).trans (hkept' fun m hm ↦ hwide m (.tail _ hm))
    · rw [launchedIn_cons]
      exact hissues.trans hissues'

end Since
end Tile
end TileEvents
