import Mathlib.Order.Bounds.Defs
import TileEvents.Proofs.Awake
import TileEvents.Proofs.Reposted

/-!
# Asleep or awake

A wait for all devices has two modes, and on a simulated tile they agree.  A hart that sleeps goes
from edge to edge, and a hart that polls from delay to delay, but both end with all of the lines,
and the one that polls at the first of its looks by which the one that sleeps is done
(`waitAll_modes_agree`).  How the looks are cut into slices does not matter.

Here it is not assumed that the lines will come up or that the hart can sleep.  If a wait that
sleeps returns then they have come up and it could, and that is all that the other mode needs.
-/

set_option autoImplicit false

namespace TileEvents

namespace Tile

/-- What a wait has taken was up when it began, or the schedule has raised it. -/
theorem wakes_of_consumes {t t' : Tile} {ms : List (Moment Tile)} {m : EventMask}
    (h : platform.Walk t ms t') (hc : EventUnit.Consumes (ms.map Moment.event) m) : t.Wakes m := by
  intro b hb
  obtain ⟨up, hlook, hseen⟩ := hc.exists_look hb
  obtain ⟨l, hl, he⟩ := List.mem_map.1 hlook
  rw [← reported_of_look h hl he] at hseen
  -- it is up by that look
  obtain ⟨before, after, rfl⟩ := List.append_of_mem hl
  exact of_mem_buffer h.split.1
    (fun m hm ↦ hc.ofWait m.event (List.mem_map_of_mem (List.mem_append_left _ hm)))
    (EventMask.mem_inter.1 hseen).1

end Tile

namespace Sleep

open EventUnit

variable {t u : Tile} {x : Sleep} {required : EventMask} {tally : Tally} {v : Verbosity}
  {n n' : Nat}

/-- **A round that comes to its end** is the last one, or what holds all the time holds after it. -/
theorem Sound.of_round (h : Sound t required tally.total x) (ht : t.Able required)
    {turn : Driver.Turn Tally Tally}
    (hround : Tile.platform.Returns (suspendRound required tally) v n (t.afterSleep x) turn n' u) :
    turn = .stop tally ∧ u = t.afterSleep x ∧ required ⊆ tally.total ∨
      ∃ tally' y, turn = .again tally' ∧ u = t.afterSleep y ∧ Sound t required tally'.total y := by
  by_cases hmissing : required ⊆ tally.total
  · rw [suspendRound, if_pos hmissing] at hround
    obtain ⟨rfl, -, rfl⟩ := hround.unique (Platform.returns_pure _)
    exact .inl ⟨rfl, rfl, hmissing⟩
  · have hreported : tally.missing required ⊆ t.mask :=
      EventMask.subset_trans (EventMask.sdiff_subset _ _) ht.reported
    have hsleeps : (x.buffer ∩ tally.missing required).isEmpty = true →
        1 ≤ n ∧ t.suspends + x.suspends + 1 < counterLimit := by
      intro hdown
      rw [suspendRound, if_neg hmissing] at hround
      obtain ⟨seen, n₁, s, hsuspend, -⟩ := Platform.returns_bind_iff.1 hround
      exact of_returns_suspend_of_down hreported (h.toKept.hasRoom ht.room) hdown hsuspend
    obtain ⟨r, n₁, y, hround', hsound, -⟩ := h.exists_round (v := v) ht hmissing hsleeps
    obtain ⟨rfl, -, rfl⟩ := hround.unique hround'
    exact .inr ⟨tally.add r, y, rfl, rfl, hsound⟩

/-- Rounds that come to an end have taken everything. -/
theorem Sound.of_rounds (ht : t.Able required)
    (hrounds : Tile.platform.Returns (suspendRounds required) v n t tally n' u) :
    ∃ x, u = t.afterSleep x ∧ Sound t required tally.total x ∧ required ⊆ tally.total := by
  refine hrounds.of_loop
    (I := fun tally s ↦ ∃ x, s = t.afterSleep x ∧ Sound t required tally.total x)
    (Q := fun tally s ↦ ∃ x, s = t.afterSleep x ∧ Sound t required tally.total x ∧
      required ⊆ tally.total) ?_ ?_ ⟨start t, (afterSleep_start t).symm, .start_empty t required⟩
  · rintro tally n s tally' n₁ u ⟨x, rfl, h⟩ hround
    obtain ⟨hturn, -⟩ | ⟨tally₁, y, hturn, rfl, hsound⟩ := h.of_round ht hround
    · simp at hturn
    · obtain rfl := Driver.Turn.again.inj hturn
      exact ⟨y, rfl, hsound⟩
  · rintro tally n s a n₁ u ⟨x, rfl, h⟩ hround
    obtain ⟨hturn, rfl, hall⟩ | ⟨tally₁, y, hturn, -⟩ := h.of_round ht hround
    · obtain rfl := Driver.Turn.stop.inj hturn
      exact ⟨x, rfl, h, hall⟩
    · simp at hturn

end Sleep

namespace EventUnit

variable {t t' : Tile} {plan : WaitPlan} {m : EventMask} {v : Verbosity} {n n' : Nat}

/-- A wait that sleeps and returns has seen all of its lines come up. -/
theorem wakes_of_waitAll_asleep (hmode : plan.mode = .suspend)
    (h : Tile.platform.Returns (waitAll plan) v n t (.ok m) n' t') : t.Wakes plan.required := by
  obtain ⟨ms, -, hcompletes⟩ := Platform.completes_of_run (congrArg (Run.mk _) h)
  obtain ⟨_, _, _, hdoes⟩ := hcompletes.does
  obtain ⟨es, es', hes, hconsumes, -⟩ := does_waitAll_asleep hmode hdoes
  obtain ⟨rounds, ms', rfl, rfl, -⟩ := List.map_eq_append_iff.1 hes
  obtain ⟨s, hrounds, -⟩ := Platform.Walk.append_iff.1 hcompletes.walk
  exact Tile.wakes_of_consumes hrounds hconsumes

/-- A wait that sleeps and returns has all of its lines, and the clock stands where the last of them
came up. -/
theorem of_returns_waitAll_asleep (hmode : plan.mode = .suspend)
    (hrequired : plan.required.isEmpty = false) (ht : t.Able plan.required)
    (h : Tile.platform.Returns (waitAll plan) v n t (.ok m) n' t') :
    m = plan.required ∧ t'.now = t.completion plan.required := by
  rw [waitAll_eq_asleep hmode hrequired] at h
  obtain ⟨tally, n₁, u, hrounds, hend⟩ := Platform.returns_bind_iff.1 h
  obtain ⟨x, rfl, hsound, hall⟩ := Sleep.Sound.of_rounds ht hrounds
  obtain ⟨hm, -, rfl⟩ := hend.unique ((Sleep.returns_clear (hsound.toKept.hasRoom ht.room)).bind
    ((Platform.returns_report _ _).bind (Platform.returns_pure _)))
  rw [Except.ok.inj hm]
  exact ⟨EventMask.subset_antisymm hsound.within hall, hsound.now_eq hall⟩

/-- **The two modes of a wait for all devices agree.**  Where a wait that sleeps returns, a wait for
the same devices that polls without a budget returns with the same lines.  If they are up when it
begins then the clock stands still; otherwise it ends at the first time at which the hart looks, one
delay after the other, that is not before the end of the wait that sleeps.  The slice matters for
neither. -/
theorem waitAll_modes_agree {devices : DeviceSet} {budget slice : Budget}
    (hrequired : devices.doneMask.isEmpty = false) (hreported : devices.doneMask ⊆ t.mask)
    (hsolvent : ∀ c, t.schedule.retirements c ≤ (t.transfers c).issued - (t.transfers c).done)
    (hroom : t.clears.length + 5 ≤ clearLogCapacity)
    (hasleep : (Tile.platform.run
      ((waitAll ⟨devices, .suspend, budget, slice⟩).program v n) t).outcome =
        .returned (.ok m, n') t') :
    ∃ k, (devices.doneMask ⊆ t.buffer → k = 0) ∧
      (¬ devices.doneMask ⊆ t.buffer →
        IsLeast {j | 1 ≤ j ∧ t'.now ≤ t.now + pollQuantum.toNat * j} k) ∧
      (t.now + pollQuantum.toNat * k < clockLimit → ∀ (slice : Budget) (v : Verbosity) (n : Nat),
        k ≤ n → ∃ t', (Tile.platform.run
          ((waitAll ⟨devices, .polling, .unbounded, slice⟩).program v n) t).outcome =
            .returned (.ok m, n - k) t' ∧ t'.now = t.now + pollQuantum.toNat * k) := by
  have hsuspend : (WaitPlan.mk devices .suspend budget slice).mode = .suspend := rfl
  have hsize : devices.doneMask.size ≤ 4 := size_required_le ⟨devices, .suspend, budget, slice⟩
  have hwakes := wakes_of_waitAll_asleep hsuspend hasleep
  have ht : t.Able devices.doneMask := ⟨hreported, hsolvent, by omega, hwakes⟩
  obtain ⟨rfl, hnow⟩ := of_returns_waitAll_asleep hsuspend hrequired ht hasleep
  refine ⟨t.ticks devices.doneMask, fun hup ↦ if_pos hup, fun hdown ↦ ?_,
    fun hclock slice v n hn ↦ ?_⟩
  · have hleast : ∀ {j}, t.ticks devices.doneMask ≤ j ↔
        1 ≤ j ∧ t'.now ≤ t.now + pollQuantum.toNat * j := by
      intro j
      rw [Tile.ticks, if_neg hdown, Tile.ticksUntil_le_iff, hnow]
      rfl
    exact ⟨hleast.1 (Nat.le_refl _), fun j hj ↦ hleast.2 hj⟩
  · have hpolling : (WaitPlan.mk devices .polling .unbounded slice).mode = .polling := rfl
    exact returns_waitAll_awake hpolling rfl hrequired ⟨ht, hclock⟩ v hn

/-- A hart that sleeps is done at 9, and one that polls looks at 10. -/
theorem modes_agree_doneTwice :
    (∃ n' t', (Tile.platform.run ((waitAll bothDone).program none 3) doneTwice).outcome =
      .returned (.ok bothDone.required, n') t' ∧ t'.now = 9) ∧
    ∀ (slice : Budget) (v : Verbosity) (n : Nat), 1 ≤ n → ∃ t', (Tile.platform.run
      ((waitAll ⟨bothDone.devices, .polling, .unbounded, slice⟩).program v n) doneTwice).outcome =
        .returned (.ok bothDone.required, n - 1) t' ∧ t'.now = 10 := by
  obtain ⟨n', t', hasleep, hnow⟩ : ∃ n' t',
      (Tile.platform.run ((waitAll bothDone).program none 3) doneTwice).outcome =
        .returned (.ok bothDone.required, n') t' ∧ t'.now = 9 := ⟨_, _, rfl, rfl⟩
  have hsolvent : ∀ c, doneTwice.schedule.retirements c ≤
      (doneTwice.transfers c).issued - (doneTwice.transfers c).done := by
    have key : ∀ c ∈ Channel.all, doneTwice.schedule.retirements c ≤
        (doneTwice.transfers c).issued - (doneTwice.transfers c).done := by decide
    exact fun c ↦ key c c.mem_all
  obtain ⟨k, -, hleast, hpolling⟩ :=
    waitAll_modes_agree (t := doneTwice) (by decide) (by decide) hsolvent (by decide) hasleep
  obtain ⟨⟨hpos, -⟩, hlower⟩ := hleast (by decide)
  obtain rfl : k = 1 := Nat.le_antisymm (hlower ⟨Nat.le_refl 1, by rw [hnow]; decide⟩) hpos
  exact ⟨⟨n', t', hasleep, hnow⟩, hpolling (by decide)⟩

end EventUnit
end TileEvents
