import TileEvents.Proofs.Delays
import TileEvents.Proofs.Numbering

/-!
# Waiting for a transfer of a channel

`Dma.waitFor` asks a channel two questions, whether it is idle and what retired last on it.  The
answers come from its counters, and together they say that the transfer was the last to be started
and has retired (`Tile.Settled`).  Nothing is started during a wait, so for any other transfer it is
in vain.

`Dma.waitFor_decided` says for every tile that can come about how the wait ends there and when.
-/

set_option autoImplicit false

namespace TileEvents

namespace Tile

/-- The transfer was the last to be started on the channel, and the last to retire. -/
def Settled (c : Channel) (id : TransferId) (t : Tile) : Prop :=
  (t.transfers c).issued = id.number.toNat ∧ (t.transfers c).done = id.number.toNat

variable {t u w : Tile} {c : Channel} {id : TransferId} {cycles k : Nat}

/-- What a channel answers if it is settled. -/
theorem settled_iff (ht : t.Counted) :
    (!(t.transfers c).inFlight && (t.transfers c).lastId == id) = true ↔ t.Settled c id := by
  have hle := (ht c).done_le
  rw [Bool.and_eq_true, Bool.not_eq_true', Transfers.inFlight, decide_eq_false_iff_not,
    beq_iff_eq, (ht c).lastId_eq_iff, Settled]
  omega

/-- No other transfer than the last is ever waited for with success. -/
theorem not_settled_of_issued (h : (t.transfers c).issued ≠ id.number.toNat) :
    ¬ t.HoldsAfter cycles (Settled c id) k := by
  rintro ⟨u, hu, hissued, -⟩
  exact h ((issued_spins hu c).symm.trans hissued)

/-- A transfer that has not retired has not done so before either. -/
theorem not_settled_of_done (hw : t.spins cycles k = .ok w)
    (hdone : (w.transfers c).done < id.number.toNat) :
    ∀ j ≤ k, ¬ t.HoldsAfter cycles (Settled c id) j := by
  rintro j hle ⟨u, hu, -, hretired⟩
  have := done_le_of_le hu hw hle c
  omega

end Tile

namespace Dma

open Tile (platform)

variable {t : Tile}

theorem watches_waitForTurn (c : Channel) (id : TransferId) (budget : Budget) :
    Watches (waitForTurn c id budget) pollQuantum.toNat (Tile.Settled c id) budget := by
  refine watches_of_looks (fun _ ↦ rfl) (descends_waitForTurn c id budget)
    (fun {_ _ t} ↦ returns_isSettled Tile.isHart_platform c id t) Tile.settled_iff
    ((Platform.returns_report _ _).bind (Platform.returns_pure _)) fun {elapsed v n t} ↦ ?_
  rw [Budget.verdict]
  dsimp only
  cases budget.isExhausted (addSaturating elapsed 1) with
  | false => exact Platform.returns_pure _
  | true =>
    refine (Platform.returns_reports .warn).bind ?_
    cases v.admits .warn with
    | false => exact Platform.returns_pure _
    | true =>
      exact (returns_lastDone Tile.isHart_platform c t).bind
        ((Platform.returns_report _ _).bind (Platform.returns_pure _))

/-- **How a wait for a transfer of a channel ends**, on every tile that can come about and that has
a transfer in flight for each that is to retire.

It ends well at its first look at which the transfer was the last of the channel to be started and
the last to retire.  So a bounded wait for any other transfer than the last runs out of rounds,
whatever is scheduled, and so does a wait for one that retires in the last of its delays, although
it has retired by then. -/
theorem waitFor_decided {taken : List Taken} (hlife : Life .initial taken t)
    (hsolvent : ∀ c, t.schedule.retirements c ≤ (t.transfers c).issued - (t.transfers c).done)
    (c : Channel) (id : TransferId) (hid : id.isValid = true) (budget : Budget) :
    let N := budget.rounds.toNat
    t.WaitsFor (waitFor c id budget) 10 (Tile.Settled c id) N ∧
    (∀ v n, (t.transfers c).issued ≠ id.number.toNat →
      N ≠ 0 → t.now + 10 * N < clockLimit → N ≤ n →
      ∃ u, u.now = t.now + 10 * N ∧
        platform.Returns (waitFor c id budget) v n t (.error .timeout) (n - N) u) ∧
    (∀ v n, t.HoldsAfter 10 (fun w ↦ (w.transfers c).done < id.number.toNat) (N - 1) →
      t.HoldsAfter 10 (fun w ↦ id.number.toNat ≤ (w.transfers c).done) N →
      N ≠ 0 → t.now + 10 * N < clockLimit → N ≤ n →
      ∃ u, u.now = t.now + 10 * N ∧ id.number.toNat ≤ (u.transfers c).done ∧
        platform.Returns (waitFor c id budget) v n t (.error .timeout) (n - N) u) := by
  intro N
  have hwaits : t.WaitsFor (waitFor c id budget) 10 (Tile.Settled c id) N := by
    rw [waitFor, if_pos hid]
    exact (watches_waitForTurn c id budget).waitsFor (hlife.counted Tile.counted_initial) hsolvent
  refine ⟨hwaits, fun v n hother hbounded hclock hcalls ↦ ?_, ?_⟩
  · obtain ⟨u, -, hnow, hend⟩ := hwaits.timeout (v := v) hbounded
      (fun _ _ ↦ Tile.not_settled_of_issued hother) hclock hcalls
    exact ⟨u, hnow, hend⟩
  · rintro v n ⟨w, hw, hpending⟩ ⟨u, hu, hretired⟩ hbounded hclock hcalls
    obtain ⟨u', hu', hnow, hend⟩ := hwaits.timeout (v := v) hbounded
      (fun j hj ↦ Tile.not_settled_of_done hw hpending j (by omega)) hclock hcalls
    obtain rfl := Except.ok.inj (hu.symm.trans hu')
    exact ⟨u, hnow, hretired, hend⟩

/-- A transfer that retires after 25 cycles. -/
def lateTransfer : List TileStep :=
  [.command (.launch .l2ToL1 0), .retireAfter .l2ToL1 0 25]

/-- With four rounds its wait ends after three.  Three rounds are too few, and for the transfer
after it they are in vain. -/
theorem waitFor_decided_lateTransfer :
    ∃ taken t, taken.map Taken.step = lateTransfer ∧ Life .initial taken t ∧ t.now = 0 ∧
      (∃ u, u.now = 30 ∧
        platform.Returns (waitFor (.first .l2ToL1) ⟨1⟩ ⟨4⟩) none 4 t (.ok ()) 1 u) ∧
      (∃ u, u.now = 30 ∧ 1 ≤ (u.transfers (.first .l2ToL1)).done ∧
        platform.Returns (waitFor (.first .l2ToL1) ⟨1⟩ ⟨3⟩) none 4 t (.error .timeout) 1 u) ∧
      ∃ u, u.now = 30 ∧
        platform.Returns (waitFor (.first .l2ToL1) ⟨2⟩ ⟨3⟩) none 4 t (.error .timeout) 1 u := by
  obtain ⟨rows, t, hplay, hnow, htransfers, hschedule, w, u, hw, hpending, hu, hretired⟩ :
      ∃ rows t, play (TileStep.run platform none) lateTransfer .initial = ⟨rows, .finished t⟩ ∧
        t.now = 0 ∧ (∀ c, t.transfers c = if c = .first .l2ToL1 then ⟨1, 0⟩ else .none) ∧
        t.schedule = [⟨25, .retire (.first .l2ToL1)⟩] ∧
        ∃ w u, t.spins 10 2 = .ok w ∧ w.transfers (.first .l2ToL1) = ⟨1, 0⟩ ∧
          t.spins 10 3 = .ok u ∧ u.transfers (.first .l2ToL1) = ⟨1, 1⟩ :=
    ⟨_, _, rfl, rfl, fun _ ↦ rfl, rfl, _, _, rfl, rfl, rfl, rfl⟩
  obtain ⟨taken, hsteps, hlife⟩ := Life.of_play Tile.isHart_platform hplay
  have hsolvent : ∀ c, t.schedule.retirements c ≤
      (t.transfers c).issued - (t.transfers c).done := by
    intro c
    rw [htransfers, hschedule, Schedule.retirements, List.countP_singleton]
    by_cases hc : c = .first .l2ToL1
    · rw [hc]
      decide
    · rw [if_neg (by simpa using Ne.symm hc)]
      exact Nat.zero_le _
  have hlate : (w.transfers (.first .l2ToL1)).done < 1 := by rw [hpending]; decide
  have hdone : 1 ≤ (u.transfers (.first .l2ToL1)).done :=
    Nat.le_of_eq (congrArg Transfers.done hretired).symm
  have hleast : IsLeast {j | t.HoldsAfter 10 (Tile.Settled (.first .l2ToL1) ⟨1⟩) j} 3 :=
    Tile.isLeast_of_spins hu
      ⟨congrArg Transfers.issued hretired, congrArg Transfers.done hretired⟩
      (Tile.not_settled_of_done hw hlate)
  obtain ⟨hfour, -⟩ := waitFor_decided hlife hsolvent (.first .l2ToL1) ⟨1⟩ rfl ⟨4⟩
  obtain ⟨-, -, hthree⟩ := waitFor_decided hlife hsolvent (.first .l2ToL1) ⟨1⟩ rfl ⟨3⟩
  obtain ⟨-, hother, -⟩ := waitFor_decided hlife hsolvent (.first .l2ToL1) ⟨2⟩ rfl ⟨3⟩
  obtain ⟨u₁, -, hnow₁, hend₁⟩ := hfour.ok (v := none) (n := 4) hleast (by decide) (by decide)
  have hclock : t.now + 10 * 3 < clockLimit := by rw [hnow]; decide
  obtain ⟨u₂, hnow₂, hdone₂, hend₂⟩ := hthree none 4 ⟨w, hw, hlate⟩ ⟨u, hu, hdone⟩ (by decide)
    hclock (by decide)
  obtain ⟨u₃, hnow₃, hend₃⟩ := hother none 4 (by rw [htransfers]; decide) (by decide) hclock
    (by decide)
  rw [hnow] at hnow₁ hnow₂ hnow₃
  exact ⟨taken, t, hsteps, hlife, hnow, ⟨u₁, hnow₁, hend₁⟩, ⟨u₂, hnow₂, hdone₂, hend₂⟩,
    u₃, hnow₃, hend₃⟩

end Dma
end TileEvents
