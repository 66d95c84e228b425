import TileEvents.EventUnit.Wait
import TileEvents.Platform.Scripted
import TileEvents.Proofs.Abridges

/-!
# Cutting a poll

A poll looks a number of times and keeps no account of when it began, so it can be cut anywhere:
the first part, and the second part if the first one found nothing, are the whole poll
(`poll_joins`).  The parts may be bounded, or the first one bounded and the second one not.

The account that a poll keeps is a count of looks which stays at the largest word once it gets
there.  `looks` is the same poll by the number of looks it has left, which is a natural number;
there the cut is an induction on the first part.  A poll without a bound is as many looks as one
likes, as long as they are more than the calls of the hart that are left (`Budget.Lasts`).

Records say how many looks a poll took, and the parts would say something else than the whole.  So
all of this is said where no records are kept; what follows at any verbosity is that the accesses
are the same, and the end (`poll_in_parts`).
-/

set_option autoImplicit false

namespace TileEvents

namespace Budget

/-- After so many looks in vain and with `n` calls of the hart left, the budget lasts for `k` looks:
the ones that are left, or if it has no bound, more than there are calls. -/
structure Lasts (b : Budget) (elapsed n k : Nat) : Prop where
  pos : 0 < k
  bounded : b.isUnbounded = false → elapsed + k = b.rounds.toNat
  unbounded : b.isUnbounded = true → n < k

/-- The first of two budgets has a bound, and one after the other they are the third. -/
def Joins (b₁ b₂ b : Budget) : Prop :=
  b₁.isUnbounded = false ∧
    (b₂.isUnbounded = false ∧ b₁.rounds.toNat + b₂.rounds.toNat = b.rounds.toNat ∨
      b₂.isUnbounded = true ∧ b.isUnbounded = true)

theorem lasts_of_bounded {b : Budget} (h : b.isUnbounded = false) (n : Nat) :
    b.Lasts 0 n b.rounds.toNat :=
  ⟨isUnbounded_eq_false_iff.1 h, fun _ ↦ Nat.zero_add _, fun hu ↦ by simp [h] at hu⟩

/-- A budget lasts no less if there are fewer calls. -/
theorem Lasts.mono {b : Budget} {elapsed n n' k : Nat} (h : b.Lasts elapsed n k) (hn : n' ≤ n) :
    b.Lasts elapsed n' k :=
  ⟨h.pos, h.bounded, fun hu ↦ Nat.lt_of_le_of_lt hn (h.unbounded hu)⟩

/-- If the second of two budgets lasts for some looks, then both together last for so many more. -/
theorem Joins.exists_lasts {b₁ b₂ b : Budget} (h : b₁.Joins b₂ b) (n : Nat) :
    ∃ k, b₂.Lasts 0 n k ∧ b.Lasts 0 n (b₁.rounds.toNat + k) := by
  obtain ⟨hb₁, ⟨hb₂, hsum⟩ | ⟨hb₂, hb⟩⟩ := h
  · have hpos := isUnbounded_eq_false_iff.1 hb₂
    have hbounded : b.isUnbounded = false := isUnbounded_eq_false_iff.2 (by omega)
    refine ⟨b₂.rounds.toNat, lasts_of_bounded hb₂ n, ?_⟩
    rw [hsum]
    exact lasts_of_bounded hbounded n
  · refine ⟨n + 1, ⟨by omega, fun hf ↦ ?_, fun _ ↦ by omega⟩,
      ⟨by omega, fun hf ↦ ?_, fun _ ↦ by omega⟩⟩
    · simp [hb₂] at hf
    · simp [hb] at hf

/-- A look that is not the last one. -/
theorem Lasts.next {b : Budget} {elapsed : UInt32} {n k : Nat}
    (h : b.Lasts elapsed.toNat (n + 1) (k + 1)) :
    b.isExhausted (addSaturating elapsed 1) = true ∧ k = 0 ∨
      b.isExhausted (addSaturating elapsed 1) = false ∧
        b.Lasts (addSaturating elapsed 1).toNat n k := by
  have hspent : b.isExhausted (addSaturating elapsed 1) = true ↔ _ := isExhausted_addSaturating_iff
  have hone : (1 : UInt32).toNat = 1 := rfl
  cases hb : b.isUnbounded with
  | true =>
    have hn := h.unbounded hb
    have hzero := isUnbounded_iff.1 hb
    refine .inr ⟨Bool.eq_false_iff.2 fun hexhausted ↦ (hspent.1 hexhausted).1 hzero, ?_⟩
    exact ⟨by omega, fun hf ↦ by simp [hb] at hf, fun _ ↦ by omega⟩
  | false =>
    have hsum := h.bounded hb
    have hpos := isUnbounded_eq_false_iff.1 hb
    cases k with
    | zero => exact .inl ⟨hspent.2 (by omega), rfl⟩
    | succ k =>
      have hleft : b.isExhausted (addSaturating elapsed 1) = false :=
        Bool.eq_false_iff.2 fun hexhausted ↦ by have := (hspent.1 hexhausted).2; omega
      refine .inr ⟨hleft, by omega, fun _ ↦ ?_, fun hu ↦ by simp [hb] at hu⟩
      rw [toNat_addSaturating_of_not_exhausted hb hleft]
      omega

end Budget

namespace EventUnit

/-- At most so many looks, with a delay after each one that finds nothing. -/
def looksFor (m : EventMask) : Nat → Driver EventMask
  | 0 => return ∅
  | k + 1 => do
    let seen ← take m
    if seen.isEmpty then
      Driver.spin pollQuantum
      looksFor m k
    else
      return seen

/-- What is done with what a first part of a wait has found. -/
def orElse (seen : EventMask) (rest : Driver EventMask) : Driver EventMask :=
  if seen.isEmpty then rest else return seen

/-- **Looks can be cut anywhere.** -/
theorem looksFor_add (m : EventMask) (j k : Nat) :
    looksFor m (j + k) = looksFor m j >>= fun seen ↦ orElse seen (looksFor m k) := by
  induction j with
  | zero =>
    rw [Nat.zero_add, looksFor, pure_bind]
    exact (if_pos rfl).symm
  | succ j ih =>
    rw [Nat.succ_add, looksFor, looksFor, bind_assoc]
    refine bind_congr fun seen ↦ ?_
    split
    · rw [bind_assoc, ih]
    · next hsome => rw [pure_bind, orElse, if_neg hsome]

/-- Looks that are in vain cost a call each. -/
theorem ends_looksFor (m : EventMask) (k : Nat) : (looksFor m k).Ends fun n _ n' ↦ n' ≤ n := by
  induction k with
  | zero => exact Driver.ends_pure fun _ ↦ Nat.le_refl _
  | succ k ih =>
    intro v n
    rw [looksFor, Driver.ends_bind_program]
    refine (ends_take m v n).mono fun r hr ↦ ?_
    obtain ⟨hn, -⟩ := hr
    split
    · rw [Driver.ends_bind_program]
      refine (Driver.ends_spin pollQuantum v r.2).mono fun t ht ↦ ?_
      exact (ih v t.2).mono fun u hu ↦ by omega
    · exact Nat.le_of_eq hn

/-- **A poll is looks.** -/
theorem loop_pollTurn_eq (m : EventMask) (b : Budget) (k : Nat) : ∀ (elapsed : UInt32) (n : Nat),
    b.Lasts elapsed.toNat n k →
      (Driver.loop (fun _ ↦ 0) (pollTurn m b) elapsed).program none n =
        (looksFor m k).program none n := by
  induction k with
  | zero => exact fun elapsed n h ↦ absurd h.pos (Nat.lt_irrefl 0)
  | succ k ih =>
    intro elapsed n h
    rw [Driver.loop_eq (descends_pollTurn m b), pollTurn, bind_assoc, looksFor,
      Driver.bind_program, Driver.bind_program]
    refine Program.bind_congr (ends_take m none n) fun r hr ↦ ?_
    obtain ⟨seen, n₁⟩ := r
    obtain ⟨rfl, -⟩ := hr
    dsimp only
    split
    · rw [bind_assoc, Driver.bind_program, Driver.bind_program]
      refine Program.bind_congr (Driver.ends_spin pollQuantum none n₁) fun t ht ↦ ?_
      rcases (ht ▸ h).next with ⟨hspent, rfl⟩ | ⟨hleft, hlasts⟩
      · rw [if_pos hspent]
        rfl
      · rw [if_neg (Bool.eq_false_iff.1 hleft)]
        exact ih _ t.2 hlasts
    · rfl

theorem poll_eq_looksFor (m : EventMask) {b : Budget} {n k : Nat} (h : b.Lasts 0 n k) :
    (poll m b).program none n = (looksFor m k).program none n :=
  loop_pollTurn_eq m b k 0 n h

/-- **Polling can be cut anywhere**: a poll is its first part, and its second part if the first one
found nothing. -/
theorem poll_joins (m : EventMask) {b₁ b₂ b : Budget} (h : b₁.Joins b₂ b) (n : Nat) :
    (poll m b).program none n =
      (poll m b₁ >>= fun seen ↦ orElse seen (poll m b₂)).program none n := by
  obtain ⟨k, hb₂, hb⟩ := h.exists_lasts n
  rw [poll_eq_looksFor m hb, looksFor_add, Driver.bind_program, Driver.bind_program,
    poll_eq_looksFor m (Budget.lasts_of_bounded h.1 n)]
  refine Program.bind_congr (ends_looksFor m _ none n) fun r hr ↦ ?_
  unfold orElse
  split
  · exact (poll_eq_looksFor m (hb₂.mono hr)).symm
  · rfl

/-! ## At every verbosity -/

/-- A poll in two parts.  There is a second one only if the first one has found nothing. -/
def pollTwice (m : EventMask) (b₁ b₂ : Budget) : Driver EventMask := do
  orElse (← poll m b₁) (poll m b₂)

theorem plain_pollTwice (m : EventMask) (b₁ b₂ : Budget) : (pollTwice m b₁ b₂).Plain := by
  refine (plain_poll m b₁).bind fun seen ↦ ?_
  unfold orElse
  split
  · exact plain_poll m b₂
  · exact Driver.plain_pure seen

theorem same_pollTwice {σ : Type} (p : Platform σ) (m : EventMask) {b₁ b₂ b : Budget}
    (h : b₁.Joins b₂ b) (v v' : Verbosity) (n : Nat) (s : σ) :
    (p.run ((pollTwice m b₁ b₂).program v n) s).Same (p.run ((poll m b).program v' n) s) := by
  have hparts := (plain_pollTwice m b₁ b₂).same p v n s
  have hwhole := (plain_poll m b).same p v' n s
  rw [poll_joins m h] at hwhole
  exact hparts.trans hwhole.symm

/-- **A poll in two parts is one poll, on any hardware.**  If both parts have a bound, it is the poll
for as many looks as both have together, as long as a word can count them; if the second one has no
bound, it is the poll without one.  Both make the same accesses, call the hart in the same way, and
come to the same end. -/
theorem poll_in_parts {σ : Type} (p : Platform σ) (m : EventMask) {k : UInt32} (hk : 0 < k)
    (v v' : Verbosity) (n : Nat) (s : σ) :
    (∀ l : UInt32, 0 < l → k.toNat + l.toNat < UInt32.size →
      (p.run ((pollTwice m ⟨k⟩ ⟨l⟩).program v n) s).Same
        (p.run ((poll m ⟨k + l⟩).program v' n) s)) ∧
    (p.run ((pollTwice m ⟨k⟩ .unbounded).program v n) s).Same
      (p.run ((poll m .unbounded).program v' n) s) := by
  have bounded {l : UInt32} (hl : 0 < l) : (⟨l⟩ : Budget).isUnbounded = false :=
    Budget.isUnbounded_eq_false_iff.2 (UInt32.lt_iff_toNat_lt.1 hl)
  refine ⟨fun l hl hsum ↦ ?_, same_pollTwice p m ⟨bounded hk, .inr ⟨rfl, rfl⟩⟩ v v' n s⟩
  have hadd : k.toNat + l.toNat = (k + l).toNat := by
    rw [UInt32.toNat_add]
    exact (Nat.mod_eq_of_lt hsum).symm
  exact same_pollTwice p m ⟨bounded hk, .inl ⟨bounded hl, hadd⟩⟩ v v' n s

/-- Looks find nothing, a timer, nothing, and the accelerator. -/
def doneAtFourth : Scripted where
  eventUnit := .ofScript [(Register.bufferMasked.offset,
    [0, Line.timer0.mask.bits, 0, Line.accDone.mask.bits])]
  dma := []

/-- The first part takes two looks in vain, and the second one, which has all the other looks that a
word can count, finds the accelerator. -/
theorem poll_in_parts_doneAtFourth :
    let run (x : Driver EventMask) (v : Verbosity) :=
      Scripted.platform.run (x.program v 4) doneAtFourth
    let parts (b₂ : Budget) := run (pollTwice Line.accDone.mask ⟨2⟩ b₂) (some .trace)
    let found := Outcome.returned (Line.accDone.mask, 1)
    (0 : UInt32) < 2 ∧ (0 : UInt32) < 0xFFFFFFFD ∧
      (2 : UInt32).toNat + (0xFFFFFFFD : UInt32).toNat < UInt32.size ∧
      (∃ s', (run (poll Line.accDone.mask ⟨2⟩) none).outcome = .returned (∅, 2) s') ∧
      ∃ s', (parts ⟨0xFFFFFFFD⟩).outcome = found s' ∧ (parts .unbounded).outcome = found s' ∧
        (parts ⟨0xFFFFFFFD⟩).accesses =
          [.look ∅, .spin pollQuantum, .look Line.timer0.mask, .spin pollQuantum, .look ∅,
            .spin pollQuantum, .look Line.accDone.mask, .takeDown Line.accDone.mask] := by
  intro run parts found
  obtain ⟨hcut, hlift⟩ := poll_in_parts Scripted.platform Line.accDone.mask
    (by decide : (0 : UInt32) < 2) (some .trace) none 4 doneAtFourth
  have hsum : (2 : UInt32).toNat + (0xFFFFFFFD : UInt32).toNat < UInt32.size := by decide
  obtain ⟨haccesses, houtcome⟩ := hcut 0xFFFFFFFD (by decide) hsum
  exact ⟨by decide, by decide, hsum, ⟨_, rfl⟩, _, houtcome, hlift.2, haccesses⟩

end EventUnit
end TileEvents
