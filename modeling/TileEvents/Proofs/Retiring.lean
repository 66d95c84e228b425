import TileEvents.Proofs.Delays
import TileEvents.Proofs.Numbering

/-!
# Waiting for either front-end

`Dma.barrier` and `Dma.waitRetired` look at the first channels of both front-ends in every cycle,
the one whether both are idle (`Tile.Idle`), the other whether either shows a number
(`Tile.AnyShows`).  `Dma.firstChannels_decided` says for every tile that can come about how the two
waits end there and when.

A channel shows the number of what retired last on it, so its numbers go up, and where two transfers
retire in one cycle they leave one out (`Tile.not_shows_of_skipped`).  Numbers do not tell the
front-ends apart: only where the other one has not started so many transfers is it clear which of
the two has retired.
-/

set_option autoImplicit false

namespace TileEvents

namespace Tile

/-- Nothing is in flight on either of the first channels. -/
def Idle (t : Tile) : Prop := ∀ d, (t.transfers (.first d)).inFlight = false

/-- What retired last on a channel has this number. -/
def Shows (c : Channel) (id : TransferId) (t : Tile) : Prop :=
  (t.transfers c).done = id.number.toNat

/-- What retired last on one of the first channels has this number. -/
def AnyShows (id : TransferId) (t : Tile) : Prop := ∃ d, t.Shows (.first d) id

/-- The tiles show the same time, and their first channels are the same: as many transfers were
started and have retired, and as many are going to retire by any time.  Everything else may differ,
the other channels and the lines. -/
structure SameFirst (t t' : Tile) : Prop where
  now : t.now = t'.now
  transfers : ∀ d, t.transfers (.first d) = t'.transfers (.first d)
  due : ∀ d now, (t.schedule.dueBy now).retirements (.first d) =
    (t'.schedule.dueBy now).retirements (.first d)

variable {t t' u u' w : Tile} {c : Channel} {id : TransferId} {P : Tile → Prop} {cycles k : Nat}

/-- What the first channels answer if they are idle. -/
theorem idle_iff : (!Direction.both.any fun d ↦ (t.transfers (.first d)).inFlight) = true ↔
    t.Idle := by
  rw [Bool.not_eq_true', List.any_eq_false]
  exact ⟨fun h d ↦ Bool.eq_false_iff.2 (h d (Direction.mem_both d)),
    fun h d _ ↦ Bool.eq_false_iff.1 (h d)⟩

/-- What the first channels answer if one of them shows the number. -/
theorem anyShows_iff (ht : t.Counted) :
    (Direction.both.any fun d ↦ (t.transfers (.first d)).lastId == id) = true ↔
      t.AnyShows id := by
  rw [List.any_eq_true]
  simp only [beq_iff_eq, (ht _).lastId_eq_iff]
  exact ⟨fun ⟨d, _, h⟩ ↦ ⟨d, h⟩, fun ⟨d, h⟩ ↦ ⟨d, Direction.mem_both d, h⟩⟩

/-- A first channel is not idle while a transfer is to retire on it. -/
theorem not_idle_of_done {d : Direction} (hw : t.spins cycles k = .ok w)
    (hpending : (w.transfers (.first d)).done < (t.transfers (.first d)).issued) :
    ∀ j ≤ k, ¬ t.HoldsAfter cycles Idle j := by
  rintro j hle ⟨x, hx, hidle⟩
  have hnone := of_decide_eq_false (hidle d)
  rw [issued_spins hx] at hnone
  have := done_le_of_le hx hw hle (.first d)
  omega

/-- A number is not shown until so many transfers have retired. -/
theorem not_shows_of_done (hw : t.spins cycles k = .ok w)
    (hpending : (w.transfers c).done < id.number.toNat) :
    ∀ j ≤ k, ¬ t.HoldsAfter cycles (Shows c id) j := by
  rintro j hle ⟨x, hx, hshows⟩
  rw [← hshows] at hpending
  exact Nat.not_le_of_lt hpending (done_le_of_le hx hw hle c)

/-- **A number that a channel goes past is never shown.** -/
theorem not_shows_of_skipped (hw : t.spins cycles k = .ok w) (hu : t.spins cycles (k + 1) = .ok u)
    (hbefore : (w.transfers c).done < id.number.toNat)
    (hafter : id.number.toNat < (u.transfers c).done) (j : Nat) :
    ¬ t.HoldsAfter cycles (Shows c id) j := by
  rcases Nat.lt_or_ge k j with hlt | hge
  · rintro ⟨x, hx, hshows⟩
    rw [← hshows] at hafter
    exact Nat.not_le_of_lt hafter (done_le_of_le hu hx hlt c)
  · exact not_shows_of_done hw hbefore j hge

/-- A number is shown only after so many transfers were started. -/
theorem not_shows_of_issued (ht : t.Counted) (h : (t.transfers c).issued < id.number.toNat)
    (j : Nat) : ¬ t.HoldsAfter cycles (Shows c id) j := by
  rintro ⟨u, hu, hshows⟩
  have hle := ((lapses_spins hu).issues.counted ht c).done_le
  rw [issued_spins hu, hshows] at hle
  omega

/-- What neither channel shows is not shown. -/
theorem not_anyShows {d : Direction} (h : ¬ t.HoldsAfter cycles (Shows (.first d) id) k)
    (hother : ∀ d', d' ≠ d → ¬ t.HoldsAfter cycles (Shows (.first d') id) k) :
    ¬ t.HoldsAfter cycles (AnyShows id) k := by
  rintro ⟨u, hu, d', hshows⟩
  by_cases hd : d' = d
  · exact h ⟨u, hu, hd ▸ hshows⟩
  · exact hother d' hd ⟨u, hu, hshows⟩

/-- **Where the other front-end has not started so many transfers, it is this one that shows the
number.** -/
theorem shows_of_anyShows {d d' : Direction} (ht : t.Counted) (hd : d' ≠ d)
    (hissued : (t.transfers (.first d')).issued < id.number.toNat) (hu : t.spins cycles k = .ok u)
    (h : u.AnyShows id) : u.Shows (.first d) id := by
  obtain ⟨e, hshows⟩ := h
  have hne : e ≠ d' := fun heq ↦ not_shows_of_issued ht hissued k ⟨u, hu, heq ▸ hshows⟩
  obtain rfl := Direction.eq_of_ne_of_ne hne hd.symm
  exact hshows

/-! ## Other channels -/

namespace SameFirst

theorem symm (h : SameFirst t t') : SameFirst t' t :=
  ⟨h.now.symm, fun d ↦ (h.transfers d).symm, fun d now ↦ (h.due d now).symm⟩

/-- The first channels are the same after delays. -/
theorem spins (h : SameFirst t t') (hu : t.spins cycles k = .ok u)
    (hu' : t'.spins cycles k = .ok u') (d : Direction) :
    u.transfers (.first d) = u'.transfers (.first d) := by
  cases k with
  | zero =>
    obtain rfl := Except.ok.inj hu
    obtain rfl := Except.ok.inj hu'
    exact h.transfers d
  | succ k =>
    obtain ⟨hnow, hpasses⟩ := passes_spins hu
    obtain ⟨hnow', hpasses'⟩ := passes_spins hu'
    rw [hpasses.transfers, hpasses'.transfers, retired, retired, h.transfers, h.due, hnow, hnow',
      h.now]

theorem exists_spins (h : SameFirst t t') (ht : t.Solvent) (ht' : t'.Solvent)
    (hu : t.spins cycles k = .ok u) : ∃ u', t'.spins cycles k = .ok u' := by
  rw [ht'.exists_spins_iff, ← h.now]
  exact ht.exists_spins_iff.1 ⟨u, hu⟩

theorem holdsAfter (h : SameFirst t t') (ht : t.Solvent) (ht' : t'.Solvent)
    (hP : ∀ u u', (∀ d, u.transfers (.first d) = u'.transfers (.first d)) → P u → P u')
    (hholds : t.HoldsAfter cycles P k) : t'.HoldsAfter cycles P k := by
  obtain ⟨u, hu, hPu⟩ := hholds
  obtain ⟨u', hu'⟩ := h.exists_spins ht ht' hu
  exact ⟨u', hu', hP u u' (h.spins hu hu') hPu⟩

/-- **A wait that is for the first channels ends alike on such tiles.** -/
theorem returns {x : Driver (Except WaitError Unit)} {bound n n' : Nat} {v : Verbosity}
    {r : Except WaitError Unit} (h : SameFirst t t') (ht : t.Solvent) (ht' : t'.Solvent)
    (hP : ∀ u u', (∀ d, u.transfers (.first d) = u'.transfers (.first d)) → P u → P u')
    (hx : t.WaitsFor x cycles P bound) (hx' : t'.WaitsFor x cycles P bound)
    (hend : platform.Returns x v n t r n' u) :
    ∃ u', u'.now = u.now ∧ platform.Returns x v n t' r n' u' := by
  have hiff : ∀ j, t.HoldsAfter cycles P j ↔ t'.HoldsAfter cycles P j := fun j ↦
    ⟨h.holdsAfter ht ht' hP, h.symm.holdsAfter ht' ht hP⟩
  obtain ⟨k, rfl, hu, hnow, ⟨rfl, hfirst, hin⟩ | ⟨rfl, hbounded, rfl, hvain⟩⟩ := hx.ends hend
  · simp only [hiff] at hfirst
    obtain ⟨u', -, hnow', hend'⟩ := hx'.ok (v := v) hfirst hin (Nat.le_add_left k n')
    rw [Nat.add_sub_cancel] at hend'
    exact ⟨u', by rw [hnow', hnow, h.now], hend'⟩
  · simp only [hiff] at hvain
    have hclock := ht.exists_spins_iff.1 ⟨u, hu⟩ hbounded
    rw [h.now] at hclock
    obtain ⟨u', -, hnow', hend'⟩ := hx'.timeout (v := v) hbounded hvain hclock
      (Nat.le_add_left _ n')
    rw [Nat.add_sub_cancel] at hend'
    exact ⟨u', by rw [hnow', hnow, h.now], hend'⟩

theorem returns_iff {x : Driver (Except WaitError Unit)} {bound n n' now : Nat} {v : Verbosity}
    {r : Except WaitError Unit} (h : SameFirst t t') (ht : t.Solvent) (ht' : t'.Solvent)
    (hP : ∀ u u', (∀ d, u.transfers (.first d) = u'.transfers (.first d)) → P u → P u')
    (hx : t.WaitsFor x cycles P bound) (hx' : t'.WaitsFor x cycles P bound) :
    (∃ u, u.now = now ∧ platform.Returns x v n t r n' u) ↔
      ∃ u', u'.now = now ∧ platform.Returns x v n t' r n' u' := by
  constructor
  · rintro ⟨u, rfl, hend⟩
    exact h.returns ht ht' hP hx hx' hend
  · rintro ⟨u', rfl, hend⟩
    exact h.symm.returns ht' ht hP hx' hx hend

end SameFirst
end Tile

namespace Dma

open Tile (platform)

variable {t u : Tile} {v : Verbosity} {n n' : Nat} {r : Except WaitError Unit} {budget : Budget}

theorem watches_spinTurn {holds : Driver Bool} {look : Tile → Bool} {P : Tile → Prop}
    (hlooks : OnlyLooks holds) (hholds : ∀ {v n t}, platform.Returns holds v n t (look t) n t)
    (hlook : ∀ {t}, t.Counted → (look t = true ↔ P t)) :
    Watches (spinTurn holds budget) 1 P budget := by
  refine watches_of_looks (fun _ ↦ rfl) (descends_spinTurn hlooks budget) hholds hlook
    (Platform.returns_pure _) fun {elapsed v n t} ↦ ?_
  rw [Budget.verdict]
  dsimp only
  cases budget.isExhausted (addSaturating elapsed 1) <;> exact Platform.returns_pure _

/-- A record of a failure does nothing to the tile. -/
theorem returns_warnIfFailed_iff (x : Driver (Except WaitError Unit)) (text : Unit → String) :
    platform.Returns (x >>= warnIfFailed text) v n t r n' u ↔ platform.Returns x v n t r n' u := by
  have hwarn : ∀ (r : Except WaitError Unit) (n : Nat) (t : Tile),
      platform.Returns (warnIfFailed text r) v n t r n t := by
    rintro (e | ⟨⟩) n t
    · exact (Platform.returns_report _ _).bind (Platform.returns_pure _)
    · exact Platform.returns_pure _
  rw [Platform.returns_bind_iff]
  constructor
  · rintro ⟨r', n₁, t₁, hx, hend⟩
    obtain ⟨rfl, rfl, rfl⟩ := hend.unique (hwarn r' n₁ t₁)
    exact hx
  · exact fun hx ↦ ⟨r, n', u, hx, hwarn r n' u⟩

theorem waitsFor_barrier (ht : t.Counted) (hsolvent : t.Solvent) :
    t.WaitsFor (barrier budget) 1 Tile.Idle budget.rounds.toNat := by
  have hlooks : OnlyLooks (do return !(← anyBusy)) := fun v n ↦ by
    rw [Driver.ends_bind_program]
    exact onlyLooks_anyBusy v n
  have hwatches : Watches (spinTurn (do return !(← anyBusy)) budget) 1 Tile.Idle budget :=
    watches_spinTurn hlooks
      (fun {_ _ t} ↦ (returns_anyBusy Tile.isHart_platform t).bind (Platform.returns_pure _))
      fun _ ↦ Tile.idle_iff
  exact (hwatches.waitsFor ht hsolvent).congr (returns_warnIfFailed_iff _ _)

theorem waitsFor_waitRetired {id : TransferId} (hid : id.isValid = true) (ht : t.Counted)
    (hsolvent : t.Solvent) :
    t.WaitsFor (waitRetired id budget) 1 (Tile.AnyShows id) budget.rounds.toNat := by
  have hwatches : Watches (spinTurn (isRetired id) budget) 1 (Tile.AnyShows id) budget :=
    watches_spinTurn (onlyLooks_isRetired id) (returns_isRetired Tile.isHart_platform id _)
      Tile.anyShows_iff
  rw [waitRetired, if_pos hid]
  exact (hwatches.waitsFor ht hsolvent).congr (returns_warnIfFailed_iff _ _)

/-- **How the waits for either front-end end**, on every tile that can come about and that has a
transfer in flight for each that is to retire.

The barrier ends well at its first look at which both first channels are idle, and the other wait at
its first look at which one of them shows the number.  Nothing but the first channels has any
influence on that.  A number that a channel goes past is never shown by it, so if the other one does
not show it either the wait runs out of rounds.  If the other one has not started so many transfers,
it is this channel's transfer that has retired. -/
theorem firstChannels_decided {taken : List Taken} (hlife : Life .initial taken t)
    (hsolvent : ∀ c, t.schedule.retirements c ≤ (t.transfers c).issued - (t.transfers c).done)
    (id : TransferId) (hid : id.isValid = true) (budget : Budget) :
    let N := budget.rounds.toNat
    t.WaitsFor (barrier budget) 1 Tile.Idle N ∧
    t.WaitsFor (waitRetired id budget) 1 (Tile.AnyShows id) N ∧
    (∀ t' : Tile, t'.Counted →
      (∀ c, t'.schedule.retirements c ≤ (t'.transfers c).issued - (t'.transfers c).done) →
      t.SameFirst t' → ∀ x, x = barrier budget ∨ x = waitRetired id budget → ∀ v n r n' now,
      ((∃ u, u.now = now ∧ platform.Returns x v n t r n' u) ↔
        ∃ u, u.now = now ∧ platform.Returns x v n t' r n' u)) ∧
    (∀ d k w u, t.spins 1 k = .ok w → t.spins 1 (k + 1) = .ok u →
      (w.transfers (.first d)).done < id.number.toNat →
      id.number.toNat < (u.transfers (.first d)).done →
      (∀ j, ¬ t.HoldsAfter 1 (Tile.Shows (.first d) id) j) ∧
      ∀ v n, (∀ d', d' ≠ d → ∀ j < N, ¬ t.HoldsAfter 1 (Tile.Shows (.first d') id) j) →
        N ≠ 0 → t.now + N < clockLimit → N ≤ n →
        ∃ u, u.now = t.now + N ∧
          platform.Returns (waitRetired id budget) v n t (.error .timeout) (n - N) u) ∧
    ∀ d d', d' ≠ d → (t.transfers (.first d')).issued < id.number.toNat → ∀ v n n' u,
      platform.Returns (waitRetired id budget) v n t (.ok ()) n' u →
      (u.transfers (.first d)).done = id.number.toNat := by
  intro N
  have ht := hlife.counted Tile.counted_initial
  have hbarrier : t.WaitsFor (barrier budget) 1 Tile.Idle N := waitsFor_barrier ht hsolvent
  have hretired : t.WaitsFor (waitRetired id budget) 1 (Tile.AnyShows id) N :=
    waitsFor_waitRetired hid ht hsolvent
  refine ⟨hbarrier, hretired, ?_, ?_, ?_⟩
  · rintro t' ht' hsolvent' hsame x (rfl | rfl) v n r n' now
    · exact hsame.returns_iff hsolvent hsolvent' (fun u u' heq hidle d ↦ heq d ▸ hidle d)
        hbarrier (waitsFor_barrier ht' hsolvent')
    · refine hsame.returns_iff hsolvent hsolvent' ?_ hretired
        (waitsFor_waitRetired hid ht' hsolvent')
      rintro u u' heq ⟨d, hshows⟩
      exact ⟨d, (congrArg Transfers.done (heq d)).symm.trans hshows⟩
  · intro d k w u hw hu hbefore hafter
    have hnever := Tile.not_shows_of_skipped hw hu hbefore hafter
    refine ⟨hnever, fun v n hother hbounded hclock hcalls ↦ ?_⟩
    have hvain : ∀ j < N, ¬ t.HoldsAfter 1 (Tile.AnyShows id) j := fun j hj ↦
      Tile.not_anyShows (hnever j) fun d' hd ↦ hother d' hd j hj
    obtain ⟨u, -, hnow, hend⟩ := hretired.timeout (v := v) hbounded hvain
      (by rwa [Nat.one_mul]) hcalls
    exact ⟨u, by rw [hnow, Nat.one_mul], hend⟩
  · intro d d' hd hissued v n n' u hend
    obtain ⟨k, -, hu, -, ⟨-, hfirst, -⟩ | ⟨hr, -⟩⟩ := hretired.ends hend
    · obtain ⟨x, hx, hshows⟩ := hfirst.1
      obtain rfl := Except.ok.inj (hu.symm.trans hx)
      exact Tile.shows_of_anyShows ht hd hissued hu hshows
    · exact nomatch hr

/-- Two transfers that retire together after three cycles. -/
def pairedTransfers : List TileStep :=
  [.command (.launch .l2ToL1 0), .command (.launch .l2ToL1 0), .retireAfter .l2ToL1 0 3,
    .retireAfter .l2ToL1 0 3]

/-- A channel that the waits for either front-end do not look at. -/
def sixthChannel : Channel := ⟨.l2ToL1, ⟨5, by decide⟩⟩

/-- What has become of them when they are about to retire, and one cycle later. -/
theorem exists_pairedTransfers :
    ∃ taken t, taken.map Taken.step = pairedTransfers ∧ Life .initial taken t ∧ t.now = 0 ∧
      (∀ c, t.schedule.retirements c = if c = .first .l2ToL1 then 2 else 0) ∧
      (∀ d, t.transfers (.first d) = if d = .l2ToL1 then ⟨2, 0⟩ else .none) ∧
      t.transfers sixthChannel = .none ∧
      ∃ w u, t.spins 1 2 = .ok w ∧ (w.transfers (.first .l2ToL1)).done = 0 ∧ t.spins 1 3 = .ok u ∧
        ∀ d, u.transfers (.first d) = if d = .l2ToL1 then ⟨2, 2⟩ else .none := by
  obtain ⟨rows, t, hplay, hnow, hschedule, hcounts⟩ :
      ∃ rows t, play (TileStep.run platform none) pairedTransfers .initial = ⟨rows, .finished t⟩ ∧
        t.now = 0 ∧ t.schedule = [⟨3, .retire (.first .l2ToL1)⟩, ⟨3, .retire (.first .l2ToL1)⟩] ∧
        (∀ d, t.transfers (.first d) = if d = .l2ToL1 then ⟨2, 0⟩ else .none) ∧
        t.transfers sixthChannel = .none ∧
        ∃ w u, t.spins 1 2 = .ok w ∧ (w.transfers (.first .l2ToL1)).done = 0 ∧
          t.spins 1 3 = .ok u ∧
          ∀ d, u.transfers (.first d) = if d = .l2ToL1 then ⟨2, 2⟩ else .none :=
    ⟨_, _, rfl, rfl, rfl, fun d ↦ by cases d <;> rfl, rfl, _, _, rfl, rfl, rfl,
      fun d ↦ by cases d <;> rfl⟩
  obtain ⟨taken, hsteps, hlife⟩ := Life.of_play Tile.isHart_platform hplay
  refine ⟨taken, t, hsteps, hlife, hnow, fun c ↦ ?_, hcounts⟩
  rw [hschedule]
  by_cases hc : c = .first .l2ToL1
  · rw [hc]
    decide
  · simp [Schedule.retirements, hc, Ne.symm hc]

/-- With five rounds the barrier ends after three, also where another channel is busy.  The second
transfer is seen to retire then, and the first never. -/
theorem firstChannels_decided_pairedTransfers :
    ∃ taken t t', taken.map Taken.step = pairedTransfers ∧ Life .initial taken t ∧ t.now = 0 ∧
      (t'.transfers sixthChannel).inFlight = true ∧
      (∃ u, u.now = 3 ∧ platform.Returns (barrier ⟨5⟩) none 5 t (.ok ()) 2 u) ∧
      (∃ u, u.now = 3 ∧ platform.Returns (barrier ⟨5⟩) none 5 t' (.ok ()) 2 u) ∧
      (∃ u, u.now = 5 ∧ platform.Returns (waitRetired ⟨1⟩ ⟨5⟩) none 5 t (.error .timeout) 0 u) ∧
      ∃ u, (u.transfers (.first .l2ToL1)).done = 2 ∧
        platform.Returns (waitRetired ⟨2⟩ ⟨5⟩) none 5 t (.ok ()) 2 u := by
  obtain ⟨taken, t, hsteps, hlife, hnow, hdue, htransfers, hsixth, w, u, hw, hpending, hu,
    hretired⟩ := exists_pairedTransfers
  have ht := hlife.counted Tile.counted_initial
  have hsolvent : ∀ x : Tile, x.schedule = t.schedule → x.transfers (.first .l2ToL1) = ⟨2, 0⟩ →
      ∀ c, x.schedule.retirements c ≤ (x.transfers c).issued - (x.transfers c).done := by
    intro x hx htwo c
    rw [hx, hdue]
    split
    · next hc =>
      rw [hc, htwo]
      decide
    · exact Nat.zero_le _
  let t' := t.setTransfers sixthChannel
    { t.transfers sixthChannel with issued := (t.transfers sixthChannel).issued + 1 }
  have ht' : t'.Counted := (Tile.issues_setTransfers (by rw [hsixth]; decide)).counted ht
  have hothers : ∀ d, t'.transfers (.first d) = t.transfers (.first d) := fun d ↦
    Tile.transfers_setTransfers_of_ne t _ (by cases d <;> decide)
  have hsame : t.SameFirst t' := ⟨rfl, fun d ↦ (hothers d).symm, fun _ _ ↦ rfl⟩
  have htransfer := htransfers .l2ToL1
  have hidle : IsLeast {j | t.HoldsAfter 1 Tile.Idle j} 3 :=
    Tile.isLeast_of_spins hu (fun d ↦ by rw [hretired]; cases d <;> rfl)
      (Tile.not_idle_of_done hw (by rw [hpending, htransfer]; decide))
  have hother : ∀ {id : TransferId}, 0 < id.number.toNat → ∀ d, d ≠ .l2ToL1 → ∀ j,
      ¬ t.HoldsAfter 1 (Tile.Shows (.first d) id) j := fun hid d hd ↦
    Tile.not_shows_of_issued ht (by rw [htransfers, if_neg hd]; exact hid)
  have htwo : IsLeast {j | t.HoldsAfter 1 (Tile.AnyShows ⟨2⟩) j} 3 :=
    Tile.isLeast_of_spins hu ⟨.l2ToL1, congrArg Transfers.done (hretired .l2ToL1)⟩ fun j hj ↦
      Tile.not_anyShows (Tile.not_shows_of_done hw (by rw [hpending]; decide) j hj)
        fun d hd ↦ hother (by decide) d hd j
  obtain ⟨hbarrier, -, halike, hskipped, -⟩ :=
    firstChannels_decided hlife (hsolvent t rfl htransfer) ⟨1⟩ rfl ⟨5⟩
  obtain ⟨-, hwait, -, -, hwhose⟩ :=
    firstChannels_decided hlife (hsolvent t rfl htransfer) ⟨2⟩ rfl ⟨5⟩
  obtain ⟨u₁, -, hnow₁, hend₁⟩ := hbarrier.ok (v := none) (n := 5) hidle (by decide) (by decide)
  rw [hnow] at hnow₁
  have hend₁' := (halike t' ht' (hsolvent t' rfl ((hothers _).trans htransfer)) hsame _ (.inl rfl)
    none 5 (.ok ()) 2 3).1 ⟨u₁, hnow₁, hend₁⟩
  obtain ⟨-, htimeout⟩ := hskipped .l2ToL1 2 w u hw hu (by rw [hpending]; decide)
    (by rw [hretired]; decide)
  obtain ⟨u₂, hnow₂, hend₂⟩ := htimeout none 5 (fun d hd j _ ↦ hother (by decide) d hd j)
    (by decide) (by rw [hnow]; decide) (by decide)
  rw [hnow] at hnow₂
  obtain ⟨u₃, -, -, hend₃⟩ := hwait.ok (v := none) (n := 5) htwo (by decide) (by decide)
  have hdone₃ := hwhose .l2ToL1 .l1ToL2 (by decide) (by rw [htransfers]; decide) _ _ _ _ hend₃
  refine ⟨taken, t, t', hsteps, hlife, hnow, ?_, ⟨u₁, hnow₁, hend₁⟩, hend₁', ⟨u₂, hnow₂, hend₂⟩,
    u₃, hdone₃, hend₃⟩
  rw [Tile.transfers_setTransfers_self, hsixth]
  rfl

end Dma
end TileEvents
