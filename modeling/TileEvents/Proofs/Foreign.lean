import TileEvents.Proofs.Arrivals
import TileEvents.Proofs.Footprint
import TileEvents.Proofs.Pairs
import TileEvents.Proofs.Rounds
import TileEvents.Proofs.SameOn
import TileEvents.Proofs.Sleep

/-!
# Foreign lines

A wait is for some lines, and what happens on all the others has no influence on what it returns and
when (`EventUnit.Wait.unmoved`): two tiles that are the same on the lines of the wait may differ in
everything else.

A wait that polls looks at fixed times, so both runs go in step (`EventUnit.Lockstep`), round by
round and look by look.  A wait that sleeps is woken by foreign lines as well.  Then one run takes
more turns than the other, and their clocks are apart between the looks that matter (`Tile.Near`).
Each sleep is over no later than the first thing that comes up on the lines of the wait.  So of two
sleeps one was in vain, and its run goes on alone, or both end at that time
(`EventUnit.near_sleepFor`).
-/

set_option autoImplicit false

namespace TileEvents

namespace Tile

/-- The tiles are the same on some lines, and show the same time. -/
structure InStep (m : EventMask) (t u : Tile) : Prop where
  now : t.now = u.now
  same : SameOn m t u

theorem InStep.mono {m q : EventMask} {t u : Tile} (h : InStep m t u) (hq : q ⊆ m) :
    InStep q t u :=
  ⟨h.now, h.same.mono hq⟩

/-- The clocks of the tiles are apart, but nothing of the mask is up, and nothing comes up on either
tile before both clocks are past it. -/
structure Apart (m : EventMask) (t u : Tile) : Prop where
  some : m.isEmpty = false
  down : (t.reported ∩ m).isEmpty = true
  later : ∀ x ∈ t.schedule.within m, t.now < x.1 ∧ u.now < x.1

/-- The tiles are the same on some lines, and show the same time or are apart. -/
structure Near (m : EventMask) (t u : Tile) : Prop where
  same : SameOn m t u
  clock : t.now = u.now ∨ Apart m t u

theorem InStep.near {m : EventMask} {t u : Tile} (h : InStep m t u) : Near m t u :=
  ⟨h.same, .inl h.now⟩

namespace Near

variable {m : EventMask} {t t' u u' : Tile}

theorem symm (h : Near m t u) : Near m u t := by
  refine ⟨h.same.symm, h.clock.imp Eq.symm fun hapart ↦ ⟨hapart.some, ?_, fun x hx ↦ ?_⟩⟩
  · rw [← h.same.reported]
    exact hapart.down
  · exact (hapart.later x (h.same.schedule.mem_iff.2 hx)).symm

/-- Tiles cannot be apart if there is nothing to come up. -/
theorem now_eq_of_isEmpty (h : Near m t u) (hm : m.isEmpty = true) : t.now = u.now :=
  h.clock.resolve_right fun hapart ↦ by simp [hapart.some] at hm

/-- Which lines wake the harts is of no account. -/
theorem irqMask (h : Near m t u) (irq irq' : EventMask) :
    Near m { t with irqMask := irq } { u with irqMask := irq' } :=
  ⟨⟨h.same.buffer, h.same.mask, h.same.schedule⟩,
    h.clock.imp_right fun hapart ↦ ⟨hapart.some, hapart.down, hapart.later⟩⟩

/-- Where something of the mask is up the tiles show the same time. -/
theorem now_eq_of_up (h : Near m t u) (hup : (t.reported ∩ m).isEmpty = false) :
    t.now = u.now :=
  h.clock.resolve_right fun hapart ↦ by simp [hapart.down] at hup

/-- One of the tiles goes on alone, to a time before anything comes up. -/
theorem of_passes (h : Near m t u) (hm : m.isEmpty = false)
    (hdown : (t.reported ∩ m).isEmpty = true) (ht : Passes t t')
    (hlater : ∀ x ∈ t.schedule.within m, t'.now < x.1) : Near m t' u := by
  have hsame := SameOn.of_passes ht hlater
  refine ⟨hsame.trans h.same, .inr ⟨hm, hsame.reported ▸ hdown, fun x hx ↦ ?_⟩⟩
  have hx' := hsame.schedule.mem_iff.1 hx
  have hnow := ht.now_le
  have hlt := hlater x hx'
  refine ⟨hlt, ?_⟩
  rcases h.clock with heq | hapart
  · omega
  · exact (hapart.later x hx').2

/-- If something comes up on both tiles while they sleep, both wake at that time. -/
theorem now_eq (h : Near m t u) (ht : t.now ≤ t'.now) (hu : u.now ≤ u'.now)
    (htw : ∀ x ∈ t.schedule.within m, t'.now ≤ max t.now x.1)
    (huw : ∀ x ∈ t.schedule.within m, u'.now ≤ max u.now x.1)
    (htx : ∃ x ∈ t.schedule.within m, x.1 ≤ t'.now)
    (hux : ∃ x ∈ t.schedule.within m, x.1 ≤ u'.now) : t'.now = u'.now := by
  obtain ⟨x, hx, hxnow⟩ := htx
  obtain ⟨y, hy, hynow⟩ := hux
  have htx := htw y hy
  have hux := huw x hx
  rcases h.clock with heq | hapart
  · omega
  · have hlx := hapart.later x hx
    have hly := hapart.later y hy
    omega

end Near
end Tile

namespace EventUnit

open Platform (Pairs)
open Tile (SameOn Near InStep Passes)

variable {m q seen seen' : EventMask} {v w : Verbosity} {n n' k k' : Nat} {t t' u u' : Tile}

/-! ## What the operations leave of a tile -/

/-- What a look at a tile finds, and the tile with that taken down. -/
structure Takes (q : EventMask) (t : Tile) (seen : EventMask) (t' : Tile) : Prop where
  found : seen = t.reported ∩ q
  now : t'.now = t.now
  buffer : t'.buffer = t.buffer \ seen
  mask : t'.mask = t.mask
  schedule : t'.schedule = t.schedule
  /-- Nothing is taken down where nothing was found. -/
  same : seen.isEmpty = true → t' = t

theorem of_returns_take (h : Tile.platform.Returns (take q) v n t seen n' t') :
    Takes q t seen t' := by
  replace h := (Platform.Returns.bind_iff (returns_observe q t)).1 h
  split at h
  · next hnone =>
    obtain ⟨rfl, -, rfl⟩ := h.unique (Platform.returns_pure _)
    rw [EventMask.isEmpty_iff] at hnone
    exact ⟨rfl, rfl, by rw [hnone, EventMask.sdiff_empty], rfl, rfl, fun _ ↦ rfl⟩
  · next hsome =>
    obtain ⟨_, n₁, t₁, hclear, hrest⟩ := Platform.returns_bind_iff.1 h
    obtain ⟨rfl, -, rfl⟩ := hrest.unique (Platform.returns_pure _)
    rw [Tile.writeClear_eq (Platform.returns_write_iff.1 hclear).2]
    exact ⟨rfl, rfl, rfl, rfl, rfl, fun hnone ↦ absurd hnone hsome⟩

/-- Of tiles that are the same the same is taken, and they stay so. -/
theorem Takes.inStep (ht : Takes q t seen t') (hu : Takes q u seen' u') (hq : q ⊆ m)
    (h : InStep m t u) : seen = seen' ∧ InStep m t' u' := by
  have hseen : seen = seen' := by rw [ht.found, hu.found, (h.same.mono hq).reported]
  refine ⟨hseen, by rw [ht.now, hu.now, h.now], .of_mem (fun b hb ↦ ?_) (fun b hb ↦ ?_) ?_⟩
  · rw [ht.buffer, hu.buffer, EventMask.mem_sdiff, EventMask.mem_sdiff, h.same.mem_buffer hb, hseen]
  · rw [ht.mask, hu.mask]
    exact h.same.mem_mask hb
  · rw [ht.schedule, hu.schedule]
    exact h.same.schedule

/-- The hart sleeps, and what it finds then is taken. -/
theorem of_returns_sleepOnce (h : Tile.platform.Returns (sleepOnce q) v n t seen n' t') :
    ∃ t₁, t.suspend = .ok t₁ ∧ Takes q t₁ seen t' := by
  obtain ⟨_, n₁, t₁, hsleep, hrest⟩ := Platform.returns_bind_iff.1 h
  obtain ⟨seen₂, n₂, t₂, htake, hrest⟩ := Platform.returns_bind_iff.1 hrest
  obtain ⟨_, n₃, t₃, hreport, hend⟩ := Platform.returns_bind_iff.1 hrest
  obtain ⟨-, -, rfl⟩ := hreport.unique (Platform.returns_report _ _)
  obtain ⟨rfl, -, rfl⟩ := hend.unique (Platform.returns_pure _)
  exact ⟨t₁, (Platform.returns_suspend_iff.1 hsleep).2, of_returns_take htake⟩

/-- The hart does not sleep if something is up; otherwise it sleeps once and looks again. -/
theorem of_returns_sleepFor (h : Tile.platform.Returns (sleepFor q) v n t seen n' t') :
    (t.reported ∩ q).isEmpty = false ∧ Takes q t seen t' ∨
      (t.reported ∩ q).isEmpty = true ∧ ∃ t₁, t.suspend = .ok t₁ ∧ Takes q t₁ seen t' := by
  obtain ⟨seen₁, n₁, t₁, htake, hrest⟩ := Platform.returns_bind_iff.1 h
  have htakes := of_returns_take htake
  rw [← htakes.found]
  split at hrest
  · next hnone =>
    rw [htakes.same hnone] at hrest
    exact .inr ⟨hnone, of_returns_sleepOnce hrest⟩
  · next hsome =>
    obtain ⟨rfl, -, rfl⟩ := hrest.unique (Platform.returns_pure _)
    exact .inl ⟨Bool.eq_false_iff.2 hsome, htakes⟩

/-- `suspend` is a look and perhaps a sleep, on a tile where its lines wake the hart. -/
theorem of_returns_suspend (h : Tile.platform.Returns (suspend q) v n t seen n' t') :
    ∃ irq, q ⊆ irq ∧
      Tile.platform.Returns (sleepFor q) v n { t with irqMask := irq } seen n' t' := by
  rw [suspend] at h
  replace h := (Platform.Returns.bind_iff (returns_irqEnabled t)).1 h
  dsimp only at h
  split at h
  · refine ⟨t.irqMask ∪ q, EventMask.subset_union_right _ _, ?_⟩
    exact (Platform.Returns.bind_iff (returns_enableIrq q t)).1 h
  · next hsub => exact ⟨t.irqMask, Classical.not_not.1 hsub, h⟩

/-! ## Two sleeps -/

/-- A sleep in vain: nothing has come up on its lines. -/
theorem near_of_vain (hq : q.isEmpty = false) (h : Near q t u)
    (hdown : (t.reported ∩ q).isEmpty = true) {t₁ : Tile} (hpasses : Passes t t₁)
    (hvain : ¬ ∃ x ∈ t.schedule.within q, x.1 ≤ t₁.now) (htakes : Takes q t₁ seen t') :
    seen = ∅ ∧ Near q t' u := by
  have hlater : ∀ x ∈ t.schedule.within q, t₁.now < x.1 :=
    fun x hx ↦ Nat.lt_of_not_le fun hle ↦ hvain ⟨x, hx, hle⟩
  have hnone : seen.isEmpty = true := by
    rwa [htakes.found, (SameOn.of_passes hpasses hlater).reported]
  rw [htakes.same hnone]
  exact ⟨EventMask.isEmpty_iff.1 hnone, h.of_passes hq hdown hpasses hlater⟩

/-- **Of two sleeps for the same lines one was in vain**, and its tile is as near to the other one as
before, or both have brought the same at the same time. -/
theorem near_sleepFor (hq : q.isEmpty = false) (h : Near q t u) (hirq : q ⊆ t.irqMask)
    (hirq' : q ⊆ u.irqMask) (ht : Tile.platform.Returns (sleepFor q) v n t seen n' t')
    (hu : Tile.platform.Returns (sleepFor q) w k u seen' k' u') :
    seen = ∅ ∧ Near q t' u ∨ seen' = ∅ ∧ Near q t u' ∨ seen = seen' ∧ InStep q t' u' := by
  have hreported := h.same.reported
  obtain ⟨hup, htakes⟩ | ⟨hdown, t₁, hsleep, htakes⟩ := of_returns_sleepFor ht
  · obtain ⟨-, htakes'⟩ | ⟨hdown', -⟩ := of_returns_sleepFor hu
    · exact .inr (.inr (htakes.inStep htakes' (EventMask.subset_refl q)
        ⟨h.now_eq_of_up hup, h.same⟩))
    · rw [hreported, hdown'] at hup
      exact nomatch hup
  · obtain ⟨hup', -⟩ | ⟨hdown', u₁, hsleep', htakes'⟩ := of_returns_sleepFor hu
    · rw [hreported, hup'] at hdown
      exact nomatch hdown
    obtain ⟨due, hnext, hnow, hpasses⟩ := Tile.passes_suspend hsleep
    obtain ⟨due', hnext', hnow', hpasses'⟩ := Tile.passes_suspend hsleep'
    by_cases hcomes : ∃ x ∈ t.schedule.within q, x.1 ≤ t₁.now
    · by_cases hcomes' : ∃ x ∈ u.schedule.within q, x.1 ≤ u₁.now
      -- something came up on both, and neither has slept beyond that
      · have heq : t₁.now = u₁.now := by
          refine h.now_eq hpasses.now_le hpasses'.now_le (fun x hx ↦ ?_) (fun x hx ↦ ?_) hcomes
            (by simpa only [h.same.schedule.mem_iff] using hcomes')
          · have := Schedule.nextEdge?_le_within hirq hnext hx
            omega
          · have := Schedule.nextEdge?_le_within hirq' hnext' (h.same.schedule.mem_iff.1 hx)
            omega
        exact .inr (.inr (htakes.inStep htakes' (EventMask.subset_refl q)
          ⟨heq, h.same.passes hpasses hpasses' heq⟩))
      · have hvain := near_of_vain hq h.symm hdown' hpasses' hcomes' htakes'
        exact .inr (.inl (hvain.imp_right Near.symm))
    · exact .inl (near_of_vain hq h hdown hpasses hcomes htakes)

/-- The same for `suspend`. -/
theorem near_suspend (hq : q.isEmpty = false) (h : Near q t u)
    (ht : Tile.platform.Returns (suspend q) v n t seen n' t')
    (hu : Tile.platform.Returns (suspend q) w k u seen' k' u') :
    seen = ∅ ∧ Near q t' u ∨ seen' = ∅ ∧ Near q t u' ∨ seen = seen' ∧ InStep q t' u' := by
  obtain ⟨irq, hirq, hsleep⟩ := of_returns_suspend ht
  obtain ⟨irq', hirq', hsleep'⟩ := of_returns_suspend hu
  have hnear := h.irqMask irq irq'
  exact (near_sleepFor hq hnear hirq hirq' hsleep hsleep').imp
    (.imp_right fun hvain ↦ hvain.irqMask t'.irqMask u.irqMask)
    (.imp_left (.imp_right fun hvain ↦ hvain.irqMask t.irqMask u'.irqMask))

/-! ## Waits that poll -/

section Lockstep

variable {α β ι : Type}

/-- Run on tiles that are in step, the driver returns the same on both and leaves them in step. -/
def Lockstep (m : EventMask) (x : Driver α) : Prop :=
  Tile.platform.Pairs x x (InStep m) fun a t b u ↦ a = b ∧ InStep m t u

theorem lockstep_pure (a : α) : Lockstep m (pure a) :=
  Platform.pairs_pure fun _ _ h ↦ ⟨rfl, h⟩

theorem lockstep_report (severity : Severity) (text : Unit → String) :
    Lockstep m (Driver.report severity text) :=
  (Platform.pairs_report severity severity text text).mono (fun _ _ h ↦ h)
    fun _ _ _ _ h ↦ ⟨rfl, h⟩

theorem Lockstep.bind {x : Driver α} {f : α → Driver β} (h : Lockstep m x)
    (hf : ∀ a, Lockstep m (f a)) : Lockstep m (x >>= f) :=
  Platform.Pairs.bind_same h hf

theorem lockstep_take (hq : q ⊆ m) : Lockstep m (take q) := by
  intro v w n n' k k' t t' u u' seen seen' h ht hu
  exact (of_returns_take ht).inStep (of_returns_take hu) hq h

theorem lockstep_clear (q : EventMask) : Lockstep m (clear q) := by
  intro v w n n' k k' t t' u u' a b h ht hu
  rw [Tile.writeClear_eq (Platform.returns_write_iff.1 ht).2,
    Tile.writeClear_eq (Platform.returns_write_iff.1 hu).2]
  refine ⟨rfl, h.now, .of_mem (fun b hb ↦ ?_) (fun b hb ↦ h.same.mem_mask hb) h.same.schedule⟩
  exact EventMask.mem_sdiff.trans
    ((and_congr_left' (h.same.mem_buffer hb)).trans EventMask.mem_sdiff.symm)

/-- A delay takes the same time on both. -/
theorem lockstep_spin (cycles : UInt32) : Lockstep m (Driver.spin cycles) := by
  intro v w n n' k k' t t' u u' a b h ht hu
  obtain ⟨hnow, hpasses⟩ := Tile.passes_advance (Platform.returns_spin_iff.1 ht).2
  obtain ⟨hnow', hpasses'⟩ := Tile.passes_advance (Platform.returns_spin_iff.1 hu).2
  have heq : t'.now = u'.now := by rw [hnow, hnow', h.now]
  exact ⟨rfl, heq, h.same.passes hpasses hpasses' heq⟩

theorem lockstep_fault (f : Fault) : Lockstep m (Driver.fault f : Driver α) := by
  intro v w n n' k k' t t' u u' a b h ht hu
  exact nomatch ht

theorem lockstep_loop {μ : ι → Nat} {body : ι → Driver (Driver.Turn ι α)}
    (h : ∀ i, Lockstep m (body i)) (i : ι) : Lockstep m (Driver.loop μ body i) := by
  refine (Platform.pairs_loop_step (I := fun i j t u ↦ i = j ∧ InStep m t u) ?_ i i).mono
    (fun _ _ hstep ↦ ⟨rfl, hstep⟩) fun _ _ _ _ hend ↦ hend
  rintro i j v w n n' k k' t t' u u' turn turn' ⟨rfl, hstep⟩ ht hu
  obtain ⟨rfl, hstep'⟩ := h i hstep ht hu
  cases turn <;> exact ⟨rfl, hstep'⟩

theorem lockstep_pollTurn (hq : q ⊆ m) (budget : Budget) (elapsed : UInt32) :
    Lockstep m (pollTurn q budget elapsed) := by
  refine (lockstep_take hq).bind fun seen ↦ ?_
  split
  · refine (lockstep_spin pollQuantum).bind fun _ ↦ ?_
    dsimp only
    split
    · exact (lockstep_report _ _).bind fun _ ↦ lockstep_pure _
    · exact lockstep_pure _
  · exact (lockstep_report _ _).bind fun _ ↦ lockstep_pure _

theorem lockstep_poll (hq : q ⊆ m) (budget : Budget) : Lockstep m (poll q budget) :=
  lockstep_loop (lockstep_pollTurn hq budget) 0

theorem lockstep_waitAnyOf {mode : WaitMode} (hmode : mode = .polling) (m : EventMask)
    (budget : Budget) : Lockstep m (waitAnyOf m mode budget) := by
  subst hmode
  rw [waitAnyOf]
  split
  · exact lockstep_pure _
  · refine lockstep_loop (fun _ ↦ (lockstep_poll (EventMask.subset_refl m) budget).bind
      fun seen ↦ ?_) ()
    split
    · exact (lockstep_report _ _).bind fun _ ↦ lockstep_pure _
    · exact lockstep_pure _

theorem lockstep_reportRound (r : Round) : Lockstep m (reportRound r) := by
  rw [reportRound]
  split
  · exact lockstep_pure _
  · exact lockstep_report _ _

theorem lockstep_pollRound (required : EventMask) (plan : WaitPlan) (c : Charged) :
    Lockstep required (pollRound required plan c) := by
  rw [pollRound]
  dsimp only
  split
  · exact lockstep_fault _
  · next limit _ =>
    refine (lockstep_poll (EventMask.sdiff_subset required c.tally.total) limit).bind fun seen ↦ ?_
    refine (lockstep_reportRound _).bind fun _ ↦ ?_
    split
    · exact lockstep_pure _
    · split
      · exact (lockstep_report _ _).bind fun _ ↦ lockstep_pure _
      · exact lockstep_pure _

theorem lockstep_waitAll {plan : WaitPlan} (hmode : plan.mode = .polling) :
    Lockstep plan.required (waitAll plan) := by
  cases hrequired : plan.required.isEmpty with
  | true =>
    rw [waitAll_eq_empty hrequired]
    exact lockstep_pure _
  | false =>
    rw [waitAll_eq_polling hmode hrequired]
    refine (lockstep_loop (lockstep_pollRound plan.required plan) _).bind fun a ↦ ?_
    split
    · exact (lockstep_report _ _).bind fun _ ↦ lockstep_pure _
    · exact lockstep_pure _

end Lockstep

/-! ## Waits that sleep -/

/-- A turn that sleeps goes on if it was woken in vain. -/
theorem of_returns_waitAnyTurn_asleep {budget : Budget}
    {turn : Driver.Turn Unit (Except WaitError EventMask)}
    (h : Tile.platform.Returns (waitAnyTurn m .suspend budget) v n t turn n' t') :
    ∃ seen, Tile.platform.Returns (suspend m) v n t seen n' t' ∧
      turn = if seen.isEmpty then .again () else .stop (.ok seen) := by
  obtain ⟨seen, n₁, t₁, hsuspend, hend⟩ := Platform.returns_bind_iff.1 h
  refine ⟨seen, ?_⟩
  split at hend
  · next hnone =>
    obtain ⟨rfl, rfl, rfl⟩ := hend.unique (Platform.returns_pure _)
    exact ⟨hsuspend, (if_pos hnone).symm⟩
  · next hsome =>
    obtain ⟨rfl, rfl, rfl⟩ := hend.unique (Platform.returns_pure _)
    exact ⟨hsuspend, (if_neg hsome).symm⟩

/-- A round is over at once if nothing is missing, and otherwise sleeps once. -/
theorem of_returns_suspendRound {required : EventMask} {tally : Tally}
    {turn : Driver.Turn Tally Tally}
    (h : Tile.platform.Returns (suspendRound required tally) v n t turn n' t') :
    required ⊆ tally.total ∧ turn = .stop tally ∧ t' = t ∨ ¬ required ⊆ tally.total ∧
      ∃ seen, Tile.platform.Returns (suspend (tally.missing required)) v n t seen n' t' ∧
        turn = .again (tally.add ⟨tally.missing required, none, seen⟩) := by
  rw [suspendRound] at h
  split at h
  · next hall =>
    obtain ⟨rfl, -, rfl⟩ := h.unique (Platform.returns_pure _)
    exact .inl ⟨hall, rfl, rfl⟩
  · next hmissing =>
    obtain ⟨seen, n₁, t₁, hsuspend, hrest⟩ := Platform.returns_bind_iff.1 h
    have hend := (Platform.Returns.bind_iff (returns_reportRound _)).1 hrest
    obtain ⟨rfl, rfl, rfl⟩ := hend.unique (Platform.returns_pure _)
    exact .inr ⟨hmissing, seen, hsuspend, rfl⟩

/-- A wait that sleeps for one of some lines ends at the first of its sleeps that is not in vain. -/
theorem pairs_waitAnyOf_asleep {mode : WaitMode} (hmode : mode = .suspend) (m : EventMask)
    (budget : Budget) : Tile.platform.Pairs (waitAnyOf m mode budget) (waitAnyOf m mode budget)
      (Near m) fun a t b u ↦ a = b ∧ t.now = u.now := by
  subst hmode
  rw [waitAnyOf]
  cases hm : m.isEmpty with
  | true => exact Platform.pairs_pure fun t u h ↦ ⟨rfl, h.now_eq_of_isEmpty hm⟩
  | false =>
    rw [if_neg (by decide)]
    refine Platform.pairs_loop (I := fun _ _ ↦ Near m) ?_ () ()
    intro i j v w n n' k k' t t' u u' turn turn' h ht hu
    obtain ⟨seen, hsuspend, rfl⟩ := of_returns_waitAnyTurn_asleep ht
    obtain ⟨seen', hsuspend', rfl⟩ := of_returns_waitAnyTurn_asleep hu
    obtain ⟨rfl, hnear⟩ | ⟨rfl, hnear⟩ | ⟨rfl, hstep⟩ := near_suspend hm h hsuspend hsuspend'
    · exact .inl ⟨(), rfl, hnear⟩
    · exact .inr (.inl ⟨(), rfl, hnear⟩)
    · refine .inr (.inr ?_)
      split
      · exact hstep.near
      · exact ⟨rfl, hstep.now⟩

/-- Two waits for all devices have taken the same, and their tiles are near on what is missing. -/
def TallyNear (required : EventMask) (a b : Tally) (t u : Tile) : Prop :=
  a.total = b.total ∧ Near (a.missing required) t u

/-- A round that brought nothing leaves the waits as they were. -/
theorem total_add_of_none {tally : Tally} {r : Round} (h : r.seen = ∅) :
    (tally.add r).total = tally.total := by
  rw [Tally.add, h, EventMask.union_empty]

/-- One round of each wait: one of them was in vain, or both have brought the same, or both waits
are over. -/
theorem near_suspendRound {required : EventMask} {a b : Tally} {turn turn' : Driver.Turn Tally Tally}
    (h : TallyNear required a b t u)
    (ht : Tile.platform.Returns (suspendRound required a) v n t turn n' t')
    (hu : Tile.platform.Returns (suspendRound required b) w k u turn' k' u') :
    (∃ a', turn = .again a' ∧ TallyNear required a' b t' u) ∨
      (∃ b', turn' = .again b' ∧ TallyNear required a b' t u') ∨
        Driver.Turn.Same (fun a b ↦ TallyNear required a b t' u')
          (fun a b ↦ a.total = b.total ∧ InStep (a.missing required) t' u') turn turn' := by
  obtain ⟨htotal, hnear⟩ := h
  have hmissing : b.missing required = a.missing required := by
    rw [Tally.missing, Tally.missing, htotal]
  obtain ⟨hall, rfl, rfl⟩ | ⟨hnot, seen, hsuspend, rfl⟩ := of_returns_suspendRound ht
  · obtain ⟨-, rfl, rfl⟩ | ⟨hnot, -⟩ := of_returns_suspendRound hu
    · have hnone := EventMask.sdiff_isEmpty_iff.2 hall
      exact .inr (.inr ⟨htotal, hnear.now_eq_of_isEmpty hnone, hnear.same⟩)
    · exact absurd (htotal ▸ hall) hnot
  · obtain ⟨hall, -⟩ | ⟨-, seen', hsuspend', rfl⟩ := of_returns_suspendRound hu
    · exact absurd (htotal ▸ hall) hnot
    have hsome : (a.missing required).isEmpty = false := by
      rwa [Bool.eq_false_iff, ne_eq, Tally.missing, EventMask.sdiff_isEmpty_iff]
    rw [hmissing] at hsuspend'
    obtain ⟨hnone, hnear'⟩ | ⟨hnone, hnear'⟩ | ⟨rfl, hstep⟩ :=
      near_suspend hsome hnear hsuspend hsuspend'
    · refine .inl ⟨_, rfl, (total_add_of_none hnone).trans htotal, ?_⟩
      rwa [Tally.missing, total_add_of_none hnone]
    · exact .inr (.inl ⟨_, rfl, htotal.trans (total_add_of_none hnone).symm, hnear'⟩)
    · refine .inr (.inr ⟨congrArg (· ∪ seen) htotal, ?_⟩)
      rw [Tally.missing_add]
      exact (hstep.mono (EventMask.sdiff_subset _ _)).near

/-- The rounds of two such waits end at the same time, with the same taken. -/
theorem pairs_suspendRounds (required : EventMask) :
    Tile.platform.Pairs (suspendRounds required) (suspendRounds required) (Near required)
      fun a t b u ↦ a.total = b.total ∧ InStep (a.missing required) t u := by
  have hmissing : Tally.empty.missing required = required := EventMask.sdiff_empty required
  have hstart (t u : Tile) (h : Near required t u) : TallyNear required .empty .empty t u :=
    ⟨rfl, hmissing.symm ▸ h⟩
  exact (Platform.pairs_loop (I := TallyNear required) near_suspendRound _ _).mono hstart
    fun _ _ _ _ h ↦ h

theorem pairs_waitAll_asleep {plan : WaitPlan} (hmode : plan.mode = .suspend) :
    Tile.platform.Pairs (waitAll plan) (waitAll plan) (Near plan.required)
      fun a t b u ↦ a = b ∧ t.now = u.now := by
  cases hrequired : plan.required.isEmpty with
  | true =>
    rw [waitAll_eq_empty hrequired]
    exact Platform.pairs_pure fun t u h ↦ ⟨rfl, h.now_eq_of_isEmpty hrequired⟩
  | false =>
    rw [waitAll_eq_asleep hmode hrequired]
    refine (pairs_suspendRounds plan.required).bind fun a b ↦ ?_
    intro v w n n' k k' t t' u u' x y ⟨htotal, hstep⟩ ht hu
    rw [← htotal] at hu
    have hend : Lockstep (a.missing plan.required) (clear a.total >>= fun _ ↦
        Driver.report .debug (fun _ ↦ s!"wait_all: {a.total.describe} complete") >>= fun _ ↦
          pure (.ok a.total) : Driver (Except WaitError EventMask)) :=
      (lockstep_clear _).bind fun _ ↦ (lockstep_report _ _).bind fun _ ↦ lockstep_pure _
    obtain ⟨heq, hstep'⟩ := hend hstep ht hu
    exact ⟨heq, hstep'.now⟩

/-! ## Every wait -/

namespace Wait

/-- The wait goes on when the hart was woken by some other line.  Only a single sleep does not. -/
def Persists : Wait → Prop
  | suspend _ => False
  | block _ mode _ => mode = .polling
  | _ => True

/-- A wait that polls. -/
theorem lockstep_driver {x : Wait} (hmode : x.mode = .polling) : Lockstep x.mask x.driver := by
  have hpoll (m : EventMask) (budget : Budget) : Lockstep m (Wait.poll m budget).driver :=
    (lockstep_poll (EventMask.subset_refl m) budget).bind fun _ ↦ lockstep_pure _
  cases x with
  | poll m budget => exact hpoll m budget
  | suspend m => exact nomatch hmode
  | block m mode budget =>
    obtain rfl := hmode
    exact hpoll m budget
  | anyOf m mode budget => exact lockstep_waitAnyOf hmode m budget
  | any plan => exact lockstep_waitAnyOf hmode _ _
  | device d mode => exact lockstep_waitAnyOf hmode _ _
  | all plan => exact lockstep_waitAll hmode

/-- A wait that sleeps as often as it takes. -/
theorem pairs_driver_asleep {x : Wait} (hmode : x.mode = .suspend) (hpersists : x.Persists) :
    Tile.platform.Pairs x.driver x.driver (Near x.mask) fun a t b u ↦ a = b ∧ t.now = u.now := by
  cases x with
  | poll m budget => exact nomatch hmode
  | suspend m => exact hpersists.elim
  | block m mode budget => exact nomatch hmode.symm.trans hpersists
  | anyOf m mode budget => exact pairs_waitAnyOf_asleep hmode m budget
  | any plan => exact pairs_waitAnyOf_asleep hmode _ _
  | device d mode => exact pairs_waitAnyOf_asleep hmode _ _
  | all plan => exact pairs_waitAll_asleep hmode

/-- **Foreign lines do not influence a wait.**  Take two tiles that show the same time and are the
same on the lines of a wait, however they differ in the other lines, in the lines that wake the
hart, in what is scheduled for other lines and in their transfers.  If the wait returns on both then
it returns the same on both, at the same time, also if the hart was woken by other lines on one of
them only. -/
theorem unmoved (x : Wait) (hpersists : x.Persists) {v v' : Verbosity} {n n' k k' : Nat}
    {t t' u u' : Tile} {a b : Except WaitError EventMask} (hnow : t.now = u.now)
    (hsame : SameOn x.mask t u)
    (ht : (Tile.platform.run (x.driver.program v n) t).outcome = .returned (a, n') t')
    (hu : (Tile.platform.run (x.driver.program v' k) u).outcome = .returned (b, k') u') :
    a = b ∧ t'.now = u'.now := by
  cases hmode : x.mode with
  | polling =>
    obtain ⟨hvalue, hstep⟩ := lockstep_driver hmode ⟨hnow, hsame⟩ ht hu
    exact ⟨hvalue, hstep.now⟩
  | suspend => exact pairs_driver_asleep hmode hpersists ⟨hsame, .inl hnow⟩ ht hu

end Wait

/-- The same tile for who waits for `bothDone`, with timers that wake the hart. -/
def disturbed : Tile :=
  { halfDone with
    buffer := Line.accDone.mask ∪ Line.timer1.mask
    irqMask := Line.timer0.mask
    schedule := [⟨3, .edge Line.timer0.mask⟩, ⟨5, .edge (Line.dma .l2ToL1 .done).mask⟩,
      ⟨2, .edge Line.timer0.mask⟩] }

/-- The hart sleeps three times instead of once, and the wait is over at 5 all the same. -/
theorem unmoved_disturbed :
    ∃ t t', (Tile.platform.run ((Wait.all bothDone).driver.program none 3) halfDone).outcome =
        .returned (.ok bothDone.required, 2) t ∧ t.suspends = 1 ∧ t.now = 5 ∧
      (Tile.platform.run ((Wait.all bothDone).driver.program none 3) disturbed).outcome =
        .returned (.ok bothDone.required, 0) t' ∧ t'.suspends = 3 ∧ t'.now = 5 := by
  obtain ⟨t, hhalf, hcount, hnow⟩ : ∃ t,
      (Tile.platform.run ((Wait.all bothDone).driver.program none 3) halfDone).outcome =
        .returned (.ok bothDone.required, 2) t ∧ t.suspends = 1 ∧ t.now = 5 := ⟨_, rfl, rfl, rfl⟩
  obtain ⟨b, t', hdisturbed, hcount'⟩ : ∃ b t',
      (Tile.platform.run ((Wait.all bothDone).driver.program none 3) disturbed).outcome =
        .returned (b, 0) t' ∧ t'.suspends = 3 := ⟨_, _, rfl, rfl⟩
  have hclock : halfDone.now = disturbed.now := rfl
  have hsame : SameOn bothDone.required halfDone disturbed := ⟨by decide, by decide, by decide⟩
  obtain ⟨rfl, hclock'⟩ := Wait.unmoved (.all bothDone) trivial hclock hsame hhalf hdisturbed
  exact ⟨t, t', hhalf, hcount, hnow, hdisturbed, hcount', hclock' ▸ hnow⟩

end EventUnit
end TileEvents
