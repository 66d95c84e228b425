import Mathlib.Order.Bounds.Defs
import TileEvents.Budget
import TileEvents.Error
import TileEvents.Proofs.Returns
import TileEvents.Proofs.Since

/-!
# One delay after another

A hart that polls looks at its tile, lets some cycles pass, and looks again.  While it does so
nothing happens to the tile but time, so what it will see can be told beforehand: `Tile.spins` is
the tile after so many delays, in which everything has fired that has come due by then
(`Tile.passes_spins`).

What comes of such a wait is decided by that (`Watches.returns_loop_iff`, `Watches.waitsFor`).  It
ends well at the first look that finds the tile as it should be.  It looks once before each delay
and never after the last, so what becomes so in the last of its delays comes too late.
-/

set_option autoImplicit false

namespace TileEvents

namespace Tile

/-- The tile after a number of delays. -/
def spins (t : Tile) (cycles : Nat) : Nat → Except Fault Tile
  | 0 => .ok t
  | k + 1 => do spins (← t.advance cycles) cycles k

/-- The tile is so after a number of delays. -/
def HoldsAfter (t : Tile) (cycles : Nat) (P : Tile → Prop) (k : Nat) : Prop :=
  ∃ u, t.spins cycles k = .ok u ∧ P u

variable {t t₁ u : Tile} {cycles k : Nat} {P : Tile → Prop}

theorem spins_succ_iff :
    t.spins cycles (k + 1) = .ok u ↔
      ∃ t₁, t.advance cycles = .ok t₁ ∧ t₁.spins cycles k = .ok u := by
  show (t.advance cycles).bind (fun t ↦ t.spins cycles k) = .ok u ↔ _
  cases t.advance cycles with
  | error f => exact iff_of_false nofun nofun
  | ok t₁ => exact ⟨fun h ↦ ⟨t₁, rfl, h⟩, fun ⟨_, rfl, h⟩ ↦ h⟩

/-- **So many delays are one that is as long.** -/
theorem passes_spins (h : t.spins cycles (k + 1) = .ok u) :
    u.now = t.now + cycles * (k + 1) ∧ Passes t u := by
  induction k generalizing t with
  | zero =>
    obtain ⟨t₁, hadvance, hrest⟩ := spins_succ_iff.1 h
    obtain rfl := Except.ok.inj hrest
    rw [Nat.zero_add, Nat.mul_one]
    exact passes_advance hadvance
  | succ k ih =>
    obtain ⟨t₁, hadvance, hrest⟩ := spins_succ_iff.1 h
    obtain ⟨hnow, hpasses⟩ := passes_advance hadvance
    obtain ⟨hnow', hpasses'⟩ := ih hrest
    rw [hnow', hnow, Nat.mul_succ cycles (k + 1), Nat.add_assoc, Nat.add_comm cycles]
    exact ⟨rfl, hpasses.trans hpasses'⟩

theorem now_spins (h : t.spins cycles k = .ok u) : u.now = t.now + cycles * k := by
  cases k with
  | zero =>
    obtain rfl := Except.ok.inj h
    rfl
  | succ k => exact (passes_spins h).1

theorem lapses_spins (h : t.spins cycles k = .ok u) : Lapses t u := by
  cases k with
  | zero =>
    obtain rfl := Except.ok.inj h
    exact .refl t
  | succ k => exact (passes_spins h).2.lapses

/-- Some delays, and then some more. -/
theorem spins_add {w : Tile} {j : Nat} (h : t.spins cycles j = .ok w) :
    t.spins cycles (j + k) = w.spins cycles k := by
  induction j generalizing t with
  | zero =>
    obtain rfl := Except.ok.inj h
    rw [Nat.zero_add]
  | succ j ih =>
    obtain ⟨t₁, hadvance, hrest⟩ := spins_succ_iff.1 h
    rw [Nat.succ_add, ← ih hrest]
    show (t.advance cycles).bind _ = _
    rw [hadvance]
    rfl

/-- Nothing is started by waiting. -/
theorem issued_spins (h : t.spins cycles k = .ok u) (c : Channel) :
    (u.transfers c).issued = (t.transfers c).issued :=
  (lapses_spins h).issues.issued c

/-- What has retired stays so. -/
theorem done_le_of_spins (h : t.spins cycles k = .ok u) (c : Channel) :
    (t.transfers c).done ≤ (u.transfers c).done := by
  obtain ⟨fired, hsince⟩ := (lapses_spins h).since
  rw [hsince.done]
  exact Nat.le_add_right _ _

/-- The longer the wait, the more has retired. -/
theorem done_le_of_le {w : Tile} {j : Nat} (hw : t.spins cycles j = .ok w)
    (hu : t.spins cycles k = .ok u) (hle : j ≤ k) (c : Channel) :
    (w.transfers c).done ≤ (u.transfers c).done := by
  obtain ⟨i, rfl⟩ := Nat.exists_eq_add_of_le hle
  exact done_le_of_spins ((spins_add hw).symm.trans hu) c

/-- A delay on a tile with transfers for everything that is to retire. -/
theorem Solvent.exists_advance (h : t.Solvent) (hclock : t.now + cycles < clockLimit) :
    ∃ t₁, t.advance cycles = .ok t₁ ∧ t₁.Solvent := by
  have hmoved : { t with now := t.now + cycles }.Solvent := h
  obtain ⟨rest, hrest, hfire⟩ := fireDue_eq (hmoved.by _)
  refine ⟨_, (if_neg (Nat.not_le_of_lt hclock)).trans hfire, hmoved.afterFiring ?_⟩
  exact (t.schedule.perm_due _).trans (hrest.symm.append_left _)

theorem now_lt_of_advance (h : t.advance cycles = .ok u) : t.now + cycles < clockLimit := by
  rw [advance] at h
  split at h
  · cases h
  · next hlt => exact Nat.lt_of_not_le hlt

/-- **There can be so many delays until the clock is at its end.** -/
theorem Solvent.exists_spins_iff (h : t.Solvent) :
    (∃ u, t.spins cycles k = .ok u) ↔ (k ≠ 0 → t.now + cycles * k < clockLimit) := by
  induction k generalizing t with
  | zero => exact iff_of_true ⟨t, rfl⟩ (absurd rfl)
  | succ k ih =>
    rw [Nat.mul_succ]
    constructor
    · rintro ⟨u, hu⟩ -
      obtain ⟨t₁, hadvance, hrest⟩ := spins_succ_iff.1 hu
      have hlt := now_lt_of_advance hadvance
      cases k with
      | zero => simpa using hlt
      | succ k =>
        obtain ⟨t₂, hadvance', hsolvent⟩ := h.exists_advance hlt
        obtain rfl := Except.ok.inj (hadvance.symm.trans hadvance')
        have hrest := (ih hsolvent).1 ⟨u, hrest⟩ (Nat.succ_ne_zero k)
        rw [(passes_advance hadvance).1] at hrest
        omega
    · intro hclock
      have hclock := hclock (Nat.succ_ne_zero k)
      have hfirst : t.now + cycles < clockLimit := by omega
      obtain ⟨t₁, hadvance, hsolvent⟩ := h.exists_advance hfirst
      obtain ⟨u, hrest⟩ := (ih hsolvent).2 fun _ ↦ by rw [(passes_advance hadvance).1]; omega
      exact ⟨u, spins_succ_iff.2 ⟨t₁, hadvance, hrest⟩⟩

/-! ## What holds after so many delays -/

theorem holdsAfter_zero_iff : t.HoldsAfter cycles P 0 ↔ P t := by
  constructor
  · rintro ⟨u, hu, hP⟩
    obtain rfl := Except.ok.inj hu
    exact hP
  · exact fun hP ↦ ⟨t, rfl, hP⟩

theorem holdsAfter_succ_iff (hadvance : t.advance cycles = .ok t₁) :
    t.HoldsAfter cycles P (k + 1) ↔ t₁.HoldsAfter cycles P k := by
  refine exists_congr fun u ↦ and_congr_left fun _ ↦ spins_succ_iff.trans ?_
  rw [hadvance]
  exact ⟨fun ⟨_, h, hu⟩ ↦ by rwa [Except.ok.inj h], fun hu ↦ ⟨t₁, rfl, hu⟩⟩

/-- What holds now and has not held after fewer delays holds for the first time. -/
theorem isLeast_of_spins (hu : t.spins cycles (k + 1) = .ok u) (hP : P u)
    (hnot : ∀ j ≤ k, ¬ t.HoldsAfter cycles P j) :
    IsLeast {j | t.HoldsAfter cycles P j} (k + 1) :=
  ⟨⟨u, hu, hP⟩, fun j hj ↦ Nat.lt_of_not_le fun hle ↦ hnot j hle hj⟩

/-- What holds for the first time holds one delay later if seen from one delay before. -/
theorem isLeast_succ_iff (hnot : ¬ P t) (hadvance : t.advance cycles = .ok t₁) :
    IsLeast {j | t.HoldsAfter cycles P j} (k + 1) ↔ IsLeast {j | t₁.HoldsAfter cycles P j} k := by
  refine and_congr (holdsAfter_succ_iff hadvance) ⟨fun h j hj ↦ ?_, fun h j hj ↦ ?_⟩
  · exact Nat.le_of_succ_le_succ (h ((holdsAfter_succ_iff hadvance).2 hj))
  · cases j with
    | zero => exact absurd (holdsAfter_zero_iff.1 hj) hnot
    | succ j => exact Nat.succ_le_succ (h ((holdsAfter_succ_iff hadvance).1 hj))

end Tile

/-! ## Loops of delays -/

/-- What a wait decides when it has looked so many times in vain. -/
def Budget.verdict (b : Budget) (spent : UInt32) : Driver.Turn UInt32 (Except WaitError Unit) :=
  if b.isExhausted spent then .stop (.error .timeout) else .again spent

/-- A turn looks whether a tile is as it should be.  If so that is all, and if not some cycles
pass. -/
structure Watches (body : UInt32 → Driver (Driver.Turn UInt32 (Except WaitError Unit)))
    (cycles : Nat) (P : Tile → Prop) (budget : Budget) : Prop where
  descends : Driver.Descends (fun _ ↦ 0) body
  found : ∀ {elapsed v n t}, t.Counted → P t →
    Tile.platform.Returns (body elapsed) v n t (.stop (.ok ())) n t
  missed_iff : ∀ {elapsed v n t turn n' u}, t.Counted → ¬ P t →
    (Tile.platform.Returns (body elapsed) v n t turn n' u ↔
      n = n' + 1 ∧ t.advance cycles = .ok u ∧ turn = budget.verdict (addSaturating elapsed 1))

/-- Such a turn asks one question, and what it does besides it does not do to the tile. -/
theorem watches_of_looks {body : UInt32 → Driver (Driver.Turn UInt32 (Except WaitError Unit))}
    {found missed : UInt32 → Driver (Driver.Turn UInt32 (Except WaitError Unit))}
    {holds : Driver Bool} {cycles : UInt32} {look : Tile → Bool} {P : Tile → Prop} {budget : Budget}
    (hbody : ∀ elapsed, body elapsed = holds >>= fun b ↦
      if b then found elapsed else Driver.spin cycles >>= fun _ ↦ missed elapsed)
    (hdescends : Driver.Descends (fun _ ↦ 0) body)
    (hholds : ∀ {v n t}, Tile.platform.Returns holds v n t (look t) n t)
    (hlook : ∀ {t}, t.Counted → (look t = true ↔ P t))
    (hfound : ∀ {elapsed v n t},
      Tile.platform.Returns (found elapsed) v n t (.stop (.ok ())) n t)
    (hmissed : ∀ {elapsed v n t},
      Tile.platform.Returns (missed elapsed) v n t (budget.verdict (addSaturating elapsed 1)) n t) :
    Watches body cycles.toNat P budget where
  descends := hdescends
  found {elapsed v n t} ht hP := by
    rw [hbody]
    refine hholds.bind ?_
    rw [(hlook ht).2 hP]
    exact hfound
  missed_iff {elapsed v n t turn n' u} ht hnot := by
    have hlook : look t = false := Bool.eq_false_iff.2 (mt (hlook ht).1 hnot)
    rw [hbody, hholds.bind_iff, hlook]
    refine Platform.returns_bind_iff.trans ?_
    constructor
    · rintro ⟨_, n₁, t₁, hspin, hend⟩
      obtain ⟨rfl, hadvance⟩ := Platform.returns_spin_iff.1 hspin
      obtain ⟨rfl, rfl, rfl⟩ := hend.unique hmissed
      exact ⟨rfl, hadvance, rfl⟩
    · rintro ⟨rfl, hadvance, rfl⟩
      exact ⟨(), n', u, Platform.returns_spin_iff.2 ⟨rfl, hadvance⟩, hmissed⟩

/-! ## How a wait ends -/

/-- How a wait ends that has looked `spent` times in vain: well at the first of its looks that finds
the tile as it should be, or in vain after its last delay. -/
inductive Tile.Decided (t : Tile) (cycles : Nat) (P : Tile → Prop) (budget : Budget) (spent : Nat) :
    Except WaitError Unit → Nat → Prop
  | found {k : Nat} (hfirst : IsLeast {j | t.HoldsAfter cycles P j} k)
    (hin : budget.rounds.toNat ≠ 0 → spent + k < budget.rounds.toNat) :
    Decided t cycles P budget spent (.ok ()) k
  | timeout {k : Nat} (hbounded : budget.rounds.toNat ≠ 0) (hall : spent + k = budget.rounds.toNat)
    (hvain : ∀ j < k, ¬ t.HoldsAfter cycles P j) :
    Decided t cycles P budget spent (.error .timeout) k

/-- On this tile the driver is a wait that looks every so many cycles whether something holds, and
no more than `bound` times unless that is 0.  It needs a call of the hart for each delay. -/
structure Tile.WaitsFor (t : Tile) (x : Driver (Except WaitError Unit)) (cycles : Nat)
    (P : Tile → Prop) (bound : Nat) : Prop where
  /-- It ends well at the first look for which it holds. -/
  ok : ∀ {v n k}, IsLeast {j | t.HoldsAfter cycles P j} k → (bound ≠ 0 → k < bound) → k ≤ n →
    ∃ u, t.spins cycles k = .ok u ∧ u.now = t.now + cycles * k ∧
      Tile.platform.Returns x v n t (.ok ()) (n - k) u
  /-- If it holds for none of them it gives up, one delay after the last. -/
  timeout : ∀ {v n}, bound ≠ 0 → (∀ j < bound, ¬ t.HoldsAfter cycles P j) →
    t.now + cycles * bound < clockLimit → bound ≤ n →
    ∃ u, t.spins cycles bound = .ok u ∧ u.now = t.now + cycles * bound ∧
      Tile.platform.Returns x v n t (.error .timeout) (n - bound) u
  /-- There is no other way for it to end. -/
  ends : ∀ {v n r n' u}, Tile.platform.Returns x v n t r n' u → ∃ k, n = n' + k ∧
    t.spins cycles k = .ok u ∧ u.now = t.now + cycles * k ∧
    (r = .ok () ∧ IsLeast {j | t.HoldsAfter cycles P j} k ∧ (bound ≠ 0 → k < bound) ∨
      r = .error .timeout ∧ bound ≠ 0 ∧ k = bound ∧ ∀ j < bound, ¬ t.HoldsAfter cycles P j)

/-- What ends alike is a wait as well. -/
theorem Tile.WaitsFor.congr {t : Tile} {x y : Driver (Except WaitError Unit)} {cycles bound : Nat}
    {P : Tile → Prop} (h : t.WaitsFor x cycles P bound)
    (hiff : ∀ {v n r n' u}, platform.Returns y v n t r n' u ↔ platform.Returns x v n t r n' u) :
    t.WaitsFor y cycles P bound where
  ok hfirst hin hcalls := by
    obtain ⟨u, hu, hnow, hend⟩ := h.ok hfirst hin hcalls
    exact ⟨u, hu, hnow, hiff.2 hend⟩
  timeout hbounded hvain hclock hcalls := by
    obtain ⟨u, hu, hnow, hend⟩ := h.timeout hbounded hvain hclock hcalls
    exact ⟨u, hu, hnow, hiff.2 hend⟩
  ends hend := h.ends (hiff.1 hend)

namespace Watches

variable {body : UInt32 → Driver (Driver.Turn UInt32 (Except WaitError Unit))} {cycles : Nat}
  {P : Tile → Prop} {budget : Budget} {elapsed : UInt32} {v : Verbosity} {n n' : Nat}
  {t t₁ u : Tile} {r : Except WaitError Unit}

open Tile (HoldsAfter Decided platform)

/-- A look in vain and a delay, and the rest is decided one delay later. -/
theorem decided_succ_iff {spent k : Nat} (hnot : ¬ P t) (hadvance : t.advance cycles = .ok t₁) :
    t.Decided cycles P budget spent r (k + 1) ↔ t₁.Decided cycles P budget (spent + 1) r k := by
  constructor
  · rintro (⟨hfirst, hin⟩ | ⟨hbounded, hall, hvain⟩)
    · exact .found ((Tile.isLeast_succ_iff hnot hadvance).1 hfirst)
        fun hbounded ↦ by have := hin hbounded; omega
    · refine .timeout hbounded (by omega) fun j hj hholds ↦ ?_
      exact hvain (j + 1) (by omega) ((Tile.holdsAfter_succ_iff hadvance).2 hholds)
  · rintro (⟨hfirst, hin⟩ | ⟨hbounded, hall, hvain⟩)
    · exact .found ((Tile.isLeast_succ_iff hnot hadvance).2 hfirst)
        fun hbounded ↦ by have := hin hbounded; omega
    · refine .timeout hbounded (by omega) fun j hj hholds ↦ ?_
      cases j with
      | zero => exact hnot (Tile.holdsAfter_zero_iff.1 hholds)
      | succ j => exact hvain j (by omega) ((Tile.holdsAfter_succ_iff hadvance).1 hholds)

/-- A tile that is as it should be is found at once. -/
theorem decided_iff_of_found {spent k : Nat} (hP : P t)
    (hleft : budget.rounds.toNat ≠ 0 → spent < budget.rounds.toNat) :
    t.Decided cycles P budget spent r k ↔ r = .ok () ∧ k = 0 := by
  have hnow : t.HoldsAfter cycles P 0 := Tile.holdsAfter_zero_iff.2 hP
  constructor
  · rintro (⟨hfirst, -⟩ | ⟨hbounded, hall, hvain⟩)
    · exact ⟨rfl, Nat.le_zero.1 (hfirst.2 hnow)⟩
    · have := hleft hbounded
      exact absurd hnow (hvain 0 (by omega))
  · rintro ⟨rfl, rfl⟩
    exact .found ⟨hnow, fun _ _ ↦ Nat.zero_le _⟩ hleft

/-- A wait does not end without a look. -/
theorem not_decided_zero {spent : Nat} (hnot : ¬ P t)
    (hleft : budget.rounds.toNat ≠ 0 → spent < budget.rounds.toNat) :
    ¬ t.Decided cycles P budget spent r 0 := by
  rintro (⟨hfirst, -⟩ | ⟨hbounded, hall, -⟩)
  · exact hnot (Tile.holdsAfter_zero_iff.1 hfirst.1)
  · have := hleft hbounded
    omega

/-- In its last delay a wait has decided. -/
theorem decided_iff_of_exhausted {spent k : Nat} (hbounded : budget.rounds.toNat ≠ 0)
    (hall : spent = budget.rounds.toNat) :
    t.Decided cycles P budget spent r k ↔ r = .error .timeout ∧ k = 0 := by
  constructor
  · rintro (⟨-, hin⟩ | ⟨-, hall', -⟩)
    · have := hin hbounded
      omega
    · exact ⟨rfl, by omega⟩
  · rintro ⟨rfl, rfl⟩
    exact .timeout hbounded (by omega) fun j hj ↦ absurd hj (Nat.not_lt_zero j)

/-- A wait without a bound may have lost count. -/
theorem decided_iff_of_unbounded {spent spent' k : Nat} (hunbounded : budget.rounds.toNat = 0) :
    t.Decided cycles P budget spent r k ↔ t.Decided cycles P budget spent' r k := by
  constructor
  all_goals
    rintro (⟨hfirst, -⟩ | ⟨hbounded, -, -⟩)
    · exact .found hfirst fun hbounded ↦ absurd hunbounded hbounded
    · exact absurd hunbounded hbounded

/-- What has been decided takes no delays. -/
theorem exists_zero_iff (a : Except WaitError Unit) :
    (∃ k, n = n' + k ∧ t.spins cycles k = .ok u ∧ r = a ∧ k = 0) ↔ r = a ∧ n' = n ∧ u = t := by
  constructor
  · rintro ⟨k, rfl, hu, rfl, rfl⟩
    exact ⟨rfl, rfl, (Except.ok.inj hu).symm⟩
  · rintro ⟨rfl, rfl, rfl⟩
    exact ⟨0, rfl, rfl, rfl, rfl⟩

/-- While there are rounds left they have been counted. -/
theorem decided_addSaturating_iff {k : Nat}
    (hexhausted : budget.isExhausted (addSaturating elapsed 1) = false) :
    t.Decided cycles P budget (addSaturating elapsed 1).toNat r k ↔
      t.Decided cycles P budget (elapsed.toNat + 1) r k := by
  cases hunbounded : budget.isUnbounded with
  | true => exact decided_iff_of_unbounded (Budget.isUnbounded_iff.1 hunbounded)
  | false =>
    rw [Budget.toNat_addSaturating_of_not_exhausted hunbounded hexhausted]
    rfl

/-- What is decided one delay later. -/
theorem exists_succ_iff {spent : Nat} (hnot : ¬ P t)
    (hleft : budget.rounds.toNat ≠ 0 → spent < budget.rounds.toNat) :
    (∃ k, n = n' + k ∧ t.spins cycles k = .ok u ∧ t.Decided cycles P budget spent r k) ↔
      ∃ n₁ t₁, n = n₁ + 1 ∧ t.advance cycles = .ok t₁ ∧
        ∃ k, n₁ = n' + k ∧ t₁.spins cycles k = .ok u ∧
          t₁.Decided cycles P budget (spent + 1) r k := by
  constructor
  · rintro ⟨k, rfl, hu, hdecided⟩
    cases k with
    | zero => exact absurd hdecided (not_decided_zero hnot hleft)
    | succ k =>
      obtain ⟨t₁, hadvance, hu⟩ := Tile.spins_succ_iff.1 hu
      exact ⟨n' + k, t₁, rfl, hadvance, k, rfl, hu, (decided_succ_iff hnot hadvance).1 hdecided⟩
  · rintro ⟨_, t₁, rfl, hadvance, k, rfl, hu, hdecided⟩
    exact ⟨k + 1, rfl, Tile.spins_succ_iff.2 ⟨t₁, hadvance, hu⟩,
      (decided_succ_iff hnot hadvance).2 hdecided⟩

/-- A loop that finds its tile as it should be is over. -/
theorem returns_loop_iff_of_found (h : Watches body cycles P budget) (ht : t.Counted) (hP : P t) :
    platform.Returns (Driver.loop (fun _ ↦ 0) body elapsed) v n t r n' u ↔
      r = .ok () ∧ n' = n ∧ u = t := by
  rw [Platform.returns_loop_iff h.descends]
  have hturn : platform.Returns (body elapsed) v n t (.stop (.ok ())) n t := h.found ht hP
  constructor
  · rintro (hstop | ⟨_, _, _, hagain, -⟩)
    · obtain ⟨hr, rfl, rfl⟩ := hstop.unique hturn
      exact ⟨Driver.Turn.stop.inj hr, rfl, rfl⟩
    · exact nomatch (hagain.unique hturn).1
  · rintro ⟨rfl, rfl, rfl⟩
    exact .inl hturn

/-- A loop that does not lets some cycles pass, and then it gives up or goes on. -/
theorem returns_loop_iff_of_missed (h : Watches body cycles P budget) (ht : t.Counted)
    (hnot : ¬ P t) :
    platform.Returns (Driver.loop (fun _ ↦ 0) body elapsed) v n t r n' u ↔
      ∃ n₁ t₁, n = n₁ + 1 ∧ t.advance cycles = .ok t₁ ∧
        let spent := addSaturating elapsed 1
        if budget.isExhausted spent then r = .error .timeout ∧ n' = n₁ ∧ u = t₁
        else platform.Returns (Driver.loop (fun _ ↦ 0) body spent) v n₁ t₁ r n' u := by
  rw [Platform.returns_loop_iff h.descends]
  simp only [h.missed_iff ht hnot, Budget.verdict]
  cases budget.isExhausted (addSaturating elapsed 1) with
  | true =>
    constructor
    · rintro (⟨rfl, hadvance, hturn⟩ | ⟨_, _, _, ⟨-, -, hturn⟩, -⟩)
      · exact ⟨n', u, rfl, hadvance, Driver.Turn.stop.inj hturn, rfl, rfl⟩
      · exact nomatch hturn
    · rintro ⟨_, _, rfl, hadvance, rfl, rfl, rfl⟩
      exact .inl ⟨rfl, hadvance, rfl⟩
  | false =>
    constructor
    · rintro (⟨-, -, hturn⟩ | ⟨_, n₁, t₁, ⟨rfl, hadvance, hturn⟩, hrest⟩)
      · exact nomatch hturn
      · obtain rfl := Driver.Turn.again.inj hturn
        exact ⟨n₁, t₁, rfl, hadvance, hrest⟩
    · rintro ⟨n₁, t₁, rfl, hadvance, hrest⟩
      exact .inr ⟨_, n₁, t₁, ⟨rfl, hadvance, rfl⟩, hrest⟩

/-- **What comes of a loop of delays is told by what time does to the tile**, and it has taken one
call of the hart for each delay. -/
theorem returns_loop_iff (h : Watches body cycles P budget) (ht : t.Counted)
    (hleft : budget.rounds.toNat ≠ 0 → elapsed.toNat < budget.rounds.toNat) :
    platform.Returns (Driver.loop (fun _ ↦ 0) body elapsed) v n t r n' u ↔
      ∃ k, n = n' + k ∧ t.spins cycles k = .ok u ∧
        t.Decided cycles P budget elapsed.toNat r k := by
  -- on the calls that are left, of which a look in vain has taken one
  induction n using Nat.strongRecOn generalizing t elapsed with
  | ind n ih =>
    by_cases hP : P t
    · simp only [decided_iff_of_found hP hleft]
      exact (h.returns_loop_iff_of_found ht hP).trans (exists_zero_iff _).symm
    rw [h.returns_loop_iff_of_missed ht hP, exists_succ_iff hP hleft]
    refine exists_congr fun n₁ ↦ exists_congr fun t₁ ↦
      and_congr_right fun hn ↦ and_congr_right fun hadvance ↦ ?_
    cases hexhausted : budget.isExhausted (addSaturating elapsed 1) with
    | true =>
      obtain ⟨hbounded, hall⟩ := Budget.isExhausted_addSaturating_iff.1 hexhausted
      simp only [decided_iff_of_exhausted hbounded (Nat.le_antisymm (hleft hbounded) hall)]
      rw [if_pos hexhausted]
      exact (exists_zero_iff _).symm
    | false =>
      have hnot := mt Budget.isExhausted_iff.2 (Bool.eq_false_iff.1 hexhausted)
      simp only [← decided_addSaturating_iff hexhausted]
      rw [if_neg (Bool.eq_false_iff.1 hexhausted)]
      exact ih n₁ (by omega) ((Tile.passes_advance hadvance).2.issues.counted ht)
        fun hbounded ↦ Nat.lt_of_not_le fun hle ↦ hnot ⟨hbounded, hle⟩

/-- **A loop of delays is a wait**, if there are transfers for everything that is to retire. -/
theorem waitsFor (h : Watches body cycles P budget) (ht : t.Counted) (hsolvent : t.Solvent) :
    t.WaitsFor (Driver.loop (fun _ ↦ 0) body 0) cycles P budget.rounds.toNat where
  ok {v n k} hfirst hin hcalls := by
    obtain ⟨u, hu, -⟩ := hfirst.1
    refine ⟨u, hu, Tile.now_spins hu, (h.returns_loop_iff ht Nat.pos_of_ne_zero).2 ⟨k, ?_, hu, ?_⟩⟩
    · omega
    · exact .found hfirst fun hbounded ↦ by simpa using hin hbounded
  timeout {v n} hbounded hvain hclock hcalls := by
    obtain ⟨u, hu⟩ := hsolvent.exists_spins_iff.2 fun _ ↦ hclock
    refine ⟨u, hu, Tile.now_spins hu, (h.returns_loop_iff ht Nat.pos_of_ne_zero).2 ⟨_, ?_, hu, ?_⟩⟩
    · omega
    · exact .timeout hbounded (Nat.zero_add _) hvain
  ends {v n r n' u} hend := by
    obtain ⟨k, hn, hu, hdecided⟩ := (h.returns_loop_iff ht Nat.pos_of_ne_zero).1 hend
    refine ⟨k, hn, hu, Tile.now_spins hu, ?_⟩
    rcases hdecided with ⟨hfirst, hin⟩ | ⟨hbounded, hall, hvain⟩
    · exact .inl ⟨rfl, hfirst, fun hbounded ↦ by simpa using hin hbounded⟩
    · obtain rfl : k = budget.rounds.toNat := by simpa using hall
      exact .inr ⟨rfl, hbounded, rfl, hvain⟩

end Watches
end TileEvents
