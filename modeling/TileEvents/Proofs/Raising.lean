import TileEvents.Command
import TileEvents.Proofs.Abridges
import TileEvents.Proofs.Operations
import TileEvents.Proofs.Rounds

/-!
# Raising a budget

A budget only says when to give up.  A wait that polls does, with any budget, what it does with a
larger one or with none, until it is answered or gives up (`Watched.raise`).  So a larger budget
never turns a success into a failure, nor changes what is returned, and what it adds comes after
everything that a smaller one has done in vain.

For the waits that look again and again until one budget is spent, that is seen turn by turn
(`abridges_poll`, `abridges_waitFor`, `abridges_spinUntil`).  A wait for all of several devices
polls in rounds, and the budget also cuts the last round short.  Before that the rounds of both
waits are of one length; a round that was cut short is the last one, so a line that it misses and
the longer round sees is seen after the wait has given up (`abridges_pollRound`).
-/

set_option autoImplicit false

namespace TileEvents

namespace Budget

/-- This budget has a bound, and the other one has none or a larger one. -/
def UpTo (b b' : Budget) : Prop :=
  b.isUnbounded = false ∧ (b.rounds ≤ b'.rounds ∨ b'.isUnbounded = true)

theorem UpTo.toNat_le {b b' : Budget} (h : b.UpTo b') :
    0 < b.rounds.toNat ∧ (b.rounds.toNat ≤ b'.rounds.toNat ∨ b'.rounds.toNat = 0) :=
  ⟨isUnbounded_eq_false_iff.1 h.1, h.2.imp UInt32.le_iff_toNat_le.1 isUnbounded_iff.1⟩

theorem upTo_of_toNat_le {b b' : Budget} (hb : 0 < b.rounds.toNat)
    (h : b.rounds.toNat ≤ b'.rounds.toNat ∨ b'.rounds.toNat = 0) : b.UpTo b' :=
  ⟨isUnbounded_eq_false_iff.2 hb, h.imp UInt32.le_iff_toNat_le.2 isUnbounded_iff.2⟩

/-- The larger budget does not run out first. -/
theorem UpTo.isExhausted {b b' : Budget} (h : b.UpTo b') {elapsed : UInt32}
    (hleft : b.isExhausted elapsed = false) : b'.isExhausted elapsed = false := by
  have := h.toNat_le
  rw [Bool.eq_false_iff, ne_eq, isExhausted_iff] at hleft ⊢
  omega

/-- While the smaller budget lasts, both have a next slice.  If the two are not of one length, the
one of the smaller budget is shorter, and the last. -/
theorem UpTo.exists_round? {b b' : Budget} (h : b.UpTo b') (slice : Budget) {elapsed : UInt32}
    (hleft : b.isExhausted elapsed = false) :
    ∃ r r', b.round? slice elapsed = some r ∧ b'.round? slice elapsed = some r' ∧
      (r = r' ∨ r.UpTo r' ∧ b.isExhausted (addSaturating elapsed slice.rounds) = true) := by
  obtain ⟨hb, hle⟩ := h.toNat_le
  rw [Bool.eq_false_iff, ne_eq, isExhausted_iff] at hleft
  have hlt : elapsed.toNat < b.rounds.toNat := by omega
  obtain ⟨r, hround, hr⟩ := Budget.exists_round? slice hlt
  have hexhausted : b.isExhausted (addSaturating elapsed slice.rounds) = true ↔ _ :=
    isExhausted_addSaturating_iff
  rcases hle with hle | hunbounded
  · obtain ⟨r', hround', hr'⟩ := Budget.exists_round? slice (Nat.lt_of_lt_of_le hlt hle)
    refine ⟨r, r', hround, hround', ?_⟩
    by_cases hcut : elapsed.toNat + slice.rounds.toNat < b.rounds.toNat
    · exact .inl (congrArg Budget.mk (UInt32.toNat_inj.1 (by omega)))
    · by_cases hslice : slice.rounds.toNat = 0
      · omega
      · exact .inr ⟨upTo_of_toNat_le (by omega) (by omega), hexhausted.2 (by omega)⟩
  · refine ⟨r, slice, hround, if_pos (isUnbounded_iff.2 hunbounded), ?_⟩
    by_cases hcut : elapsed.toNat + slice.rounds.toNat < b.rounds.toNat
    · exact .inl (congrArg Budget.mk (UInt32.toNat_inj.1 (by omega)))
    · by_cases hslice : slice.rounds.toNat = 0
      · exact .inl (congrArg Budget.mk (UInt32.toNat_inj.1 (by omega)))
      · exact .inr ⟨upTo_of_toNat_le (by omega) (by omega), hexhausted.2 (by omega)⟩

end Budget

/-! ## Waits that look until a budget is spent -/

section Looks

variable {b b' : Budget}

namespace EventUnit

theorem abridges_pollTurn (h : b.UpTo b') (m : EventMask) (elapsed : UInt32) :
    (pollTurn m b elapsed).Abridges (Driver.Turn.Late (· = ∅)) (Driver.Turn.Same Eq Eq)
      (pollTurn m b' elapsed) := by
  unfold pollTurn
  refine Driver.Abridges.after fun seen ↦ ?_
  split
  · refine Driver.Abridges.after fun _ ↦ ?_
    dsimp only
    split
    · intro n
      exact .late ⟨∅, rfl, rfl⟩
    · next hleft =>
      rw [if_neg (Bool.eq_false_iff.1 (h.isExhausted (Bool.eq_false_iff.2 hleft)))]
      exact Driver.abridges_pure rfl
  · exact .silent_bind (Driver.silent_report _ _) (Driver.silent_report _ _)
      (Driver.abridges_pure rfl)

theorem abridges_poll (h : b.UpTo b') (m : EventMask) :
    (poll m b).Abridges (· = ∅) Eq (poll m b') :=
  Driver.abridges_loop (R := Eq) (descends_pollTurn m b) (descends_pollTurn m b')
    (fun elapsed _ heq ↦ heq ▸ abridges_pollTurn h m elapsed) rfl

/-- A wait for some line polls once. -/
theorem abridges_waitAnyOf (h : b.UpTo b') (m : EventMask) :
    (waitAnyOf m .polling b).Abridges (· = .error .timeout) Eq (waitAnyOf m .polling b') := by
  unfold waitAnyOf
  split
  · exact Driver.abridges_pure rfl
  · refine Driver.abridges_loop (R := fun _ _ ↦ True) (descends_waitAnyTurn m .polling b)
      (descends_waitAnyTurn m .polling b') (fun _ _ _ ↦ ?_) trivial
    refine (abridges_poll h m).bind ?_ ?_
    · rintro seen rfl n
      exact ⟨.stop (.error .timeout), n, rfl, _, rfl, rfl⟩
    · rintro seen _ rfl
      split
      · exact fun n ↦ .late ⟨_, rfl, rfl⟩
      · exact Driver.abridges_pure rfl

end EventUnit

namespace Dma

theorem abridges_waitFor (h : b.UpTo b') (c : Channel) (id : TransferId) :
    (waitFor c id b).Abridges (· = .error .timeout) Eq (waitFor c id b') := by
  unfold waitFor
  split
  · refine Driver.abridges_loop (R := Eq) (descends_waitForTurn c id b)
      (descends_waitForTurn c id b') ?_ rfl
    rintro elapsed _ rfl
    unfold waitForTurn
    refine Driver.Abridges.after fun settled ↦ ?_
    split
    · exact .silent_bind (Driver.silent_report _ _) (Driver.silent_report _ _)
        (Driver.abridges_pure rfl)
    · refine Driver.Abridges.after fun _ ↦ ?_
      dsimp only
      split
      · exact fun n ↦ .late ⟨_, rfl, rfl⟩
      · next hleft =>
        rw [if_neg (Bool.eq_false_iff.1 (h.isExhausted (Bool.eq_false_iff.2 hleft)))]
        exact Driver.abridges_pure rfl
  · exact Driver.abridges_pure rfl

theorem abridges_spinUntil (h : b.UpTo b') {holds : Driver Bool} (hlooks : OnlyLooks holds) :
    (spinUntil holds b).Abridges (· = .error .timeout) Eq (spinUntil holds b') := by
  refine Driver.abridges_loop (R := Eq) (descends_spinTurn hlooks b)
    (descends_spinTurn hlooks b') ?_ rfl
  rintro elapsed _ rfl
  unfold spinTurn
  refine Driver.Abridges.after fun found ↦ ?_
  split
  · exact Driver.abridges_pure rfl
  · refine Driver.Abridges.after fun _ ↦ ?_
    dsimp only
    split
    · exact Driver.abridges_late ⟨_, rfl, rfl⟩
    · next hleft =>
      rw [if_neg (Bool.eq_false_iff.1 (h.isExhausted (Bool.eq_false_iff.2 hleft)))]
      exact Driver.abridges_pure rfl

/-- What is said of a wait that has failed makes no difference. -/
theorem Abridges.warnIfFailed {x y : Driver (Except WaitError Unit)} (text : Unit → String)
    (h : x.Abridges (· = .error .timeout) Eq y) :
    (x >>= warnIfFailed text).Abridges (· = .error .timeout) Eq (y >>= warnIfFailed text) := by
  refine h.bind ?_ ?_
  · rintro outcome rfl n
    exact ⟨.error .timeout, n, rfl, rfl⟩
  · rintro outcome _ rfl
    exact Driver.abridges_refl _

theorem abridges_waitRetired (h : b.UpTo b') (id : TransferId) :
    (waitRetired id b).Abridges (· = .error .timeout) Eq (waitRetired id b') := by
  unfold waitRetired
  split
  · exact Abridges.warnIfFailed _ (abridges_spinUntil h (onlyLooks_isRetired id))
  · exact Driver.abridges_pure rfl

theorem abridges_barrier (h : b.UpTo b') :
    (barrier b).Abridges (· = .error .timeout) Eq (barrier b') :=
  Abridges.warnIfFailed _ (abridges_spinUntil h
    fun v n ↦ Driver.ends_bind_program.2 (onlyLooks_anyBusy v n))

end Dma
end Looks

/-! ## The wait for all of several devices -/

namespace EventUnit

section Rounds

variable {required : EventMask} {plan plan' : WaitPlan}

/-- What two polling waits have charged and taken is the same, something is missing, and the budget
of the first one is not spent.  The lengths of their rounds are left out. -/
structure Charged.Near (required : EventMask) (b : Budget) (c c' : Charged) : Prop where
  total : c.tally.total = c'.tally.total
  elapsed : c.elapsed = c'.elapsed
  missing : ¬ required ⊆ c.tally.total
  left : b.isExhausted c.elapsed = false

/-- The rounds differ in nothing but their lengths; the one that was cut short is the last. -/
theorem abridges_pollRound (h : plan.budget.UpTo plan'.budget) (hslice : plan.slice = plan'.slice)
    {c c' : Charged} (hc : c.Near required plan.budget c') :
    (pollRound required plan c).Abridges (Driver.Turn.Late (·.1 = .error .timeout))
      (Driver.Turn.Same (Charged.Near required plan.budget)
        fun a a' ↦ a.1 = a'.1 ∧ a.2.total = a'.2.total)
      (pollRound required plan' c') := by
  obtain ⟨t, elapsed⟩ := c
  obtain ⟨t', elapsed'⟩ := c'
  obtain ⟨htotal, rfl, hmissing, hleft⟩ := hc
  obtain ⟨limit, limit', hround, hround', hlimits⟩ := h.exists_round? plan.slice hleft
  have hsame : t.missing required = t'.missing required := congrArg (required \ ·) htotal
  have hpoll : (poll (t.missing required) limit).Abridges
      (fun seen ↦ seen = ∅ ∧
        plan.budget.isExhausted (addSaturating elapsed plan.slice.rounds) = true)
      Eq (poll (t'.missing required) limit') := by
    rw [← hsame]
    obtain rfl | ⟨hle, hlast⟩ := hlimits
    · exact Driver.abridges_refl _
    · exact (abridges_poll hle _).mono (fun _ hnone ↦ ⟨hnone, hlast⟩) fun _ _ ↦ id
  unfold pollRound
  dsimp only
  rw [hround, ← hslice, hround']
  refine hpoll.bind ?_ ?_
  · rintro seen ⟨rfl, hlast⟩ n
    refine ⟨.stop (.error .timeout, t.add ⟨t.missing required, some limit, ∅⟩), n, ?_, _, rfl, rfl⟩
    have hmissing' : ¬ required ⊆ (t.add ⟨t.missing required, some limit, ∅⟩).total := by
      rwa [Tally.add, EventMask.union_empty]
    rw [(silent_reportRound _).bind_program, if_neg hmissing', if_pos hlast]
    rfl
  · rintro seen _ rfl
    have htotal' : (t.add ⟨t.missing required, some limit, seen⟩).total =
        (t'.add ⟨t'.missing required, some limit', seen⟩).total := congrArg (· ∪ seen) htotal
    refine .silent_bind (silent_reportRound _) (silent_reportRound _) ?_
    rw [← htotal']
    split
    · exact Driver.abridges_pure ⟨rfl, htotal'⟩
    · next hmissing' =>
      split
      · exact fun n ↦ .late ⟨_, rfl, rfl⟩
      · next hleft' =>
        have hleft'' := Bool.eq_false_iff.2 hleft'
        rw [if_neg (Bool.eq_false_iff.1 (h.isExhausted hleft''))]
        exact Driver.abridges_pure ⟨htotal', rfl, hmissing', hleft''⟩

theorem abridges_pollRounds (h : plan.budget.UpTo plan'.budget) (hslice : plan.slice = plan'.slice)
    (hrequired : required.isEmpty = false) :
    (pollRounds required plan).Abridges (·.1 = .error .timeout)
      (fun a a' ↦ a.1 = a'.1 ∧ a.2.total = a'.2.total) (pollRounds required plan') := by
  refine Driver.abridges_loop (descends_pollRound required plan) (descends_pollRound required plan')
    (fun _ _ ↦ abridges_pollRound h hslice) ⟨rfl, rfl, not_subset_empty hrequired, ?_⟩
  rw [Bool.eq_false_iff, ne_eq, Budget.isExhausted_iff]
  rintro ⟨hbounded, hspent⟩
  exact hbounded (Nat.le_zero.1 hspent)

theorem abridges_waitAll (h : plan.budget.UpTo plan'.budget) (hslice : plan.slice = plan'.slice)
    (hmode : plan.mode = .polling) (hmode' : plan'.mode = .polling)
    (hrequired : plan.required = plan'.required) :
    (waitAll plan).Abridges (· = .error .timeout) Eq (waitAll plan') := by
  cases hempty : plan.required.isEmpty with
  | true =>
    rw [waitAll_eq_empty hempty, waitAll_eq_empty (hrequired ▸ hempty)]
    exact Driver.abridges_pure rfl
  | false =>
    rw [waitAll_eq_polling hmode hempty, waitAll_eq_polling hmode' (hrequired ▸ hempty),
      ← hrequired]
    refine (abridges_pollRounds h hslice hempty).bind ?_ ?_
    · rintro ⟨_, t⟩ rfl n
      exact ⟨.error .timeout, n, rfl, rfl⟩
    · rintro ⟨outcome, t⟩ ⟨_, t'⟩ ⟨rfl, htotal⟩
      cases outcome with
      | ok u =>
        exact .silent_bind (Driver.silent_report _ _) (Driver.silent_report _ _)
          (Driver.abridges_pure (congrArg Except.ok htotal))
      | error e => exact Driver.abridges_pure rfl

end Rounds
end EventUnit

/-! ## Every wait with a budget -/

/-- A wait that polls, but for its budget. -/
inductive Watched
  | poll (m : EventMask)
  | anyOf (m : EventMask)
  | all (devices : DeviceSet) (slice : Budget)
  | transfer (d : Direction) (index : Nat) (id : TransferId)
  | retired (id : TransferId)
  | barrier

namespace Watched

/-- The wait with a budget. -/
def command : Watched → Budget → Command
  | poll m, b => .poll m b
  | anyOf m, b => .waitAnyOf m .polling b
  | all devices slice, b => .waitAll ⟨devices, .polling, b, slice⟩
  | transfer d index id, b => .waitFor d index id b
  | retired id, b => .waitRetired id b
  | barrier, b => .barrier b

/-- What the wait is answered with when its budget is spent. -/
def late : Watched → Answer
  | poll _ => .ofMask ∅
  | _ => .failed .timeout

/-- With a larger budget a wait goes on where it would have given up. -/
theorem abridges (w : Watched) {b b' : Budget} (h : b.UpTo b') :
    (w.command b).driver.Abridges (· = w.late) Eq (w.command b').driver := by
  have mask {x y : Driver (Except WaitError EventMask)}
      (h : x.Abridges (· = .error .timeout) Eq y) :
      Driver.Abridges (· = .failed .timeout) Eq (Answer.ofMaskResult <$> x)
        (Answer.ofMaskResult <$> y) :=
    h.map fun _ ha ↦ ha ▸ rfl
  have plain {x y : Driver (Except WaitError Unit)}
      (h : x.Abridges (· = .error .timeout) Eq y) :
      Driver.Abridges (· = .failed .timeout) Eq (Answer.ofUnitResult <$> x)
        (Answer.ofUnitResult <$> y) :=
    h.map fun _ ha ↦ ha ▸ rfl
  cases w with
  | poll m => exact (EventUnit.abridges_poll h m).map fun _ ha ↦ congrArg Answer.ofMask ha
  | anyOf m => exact mask (EventUnit.abridges_waitAnyOf h m)
  | all devices slice => exact mask (EventUnit.abridges_waitAll h rfl rfl rfl rfl)
  | transfer d index id =>
    show (Command.onChannel d index _).Abridges _ _ (Command.onChannel d index _)
    unfold Command.onChannel
    split
    · next c _ => exact plain (Dma.abridges_waitFor h c id)
    · exact Driver.abridges_pure rfl
  | retired id => exact plain (Dma.abridges_waitRetired h id)
  | barrier => exact plain (Dma.abridges_barrier h)

/-- **A budget is a watchdog and nothing else.**  Take any wait that polls, any hardware, and a
budget that is raised, or lifted.  If the wait with the smaller budget is not given up, then with
the larger budget it runs in the same way: the same accesses, the same end, the same answer.  If it
is given up, its accesses are the first ones of the wait with the larger budget. -/
theorem raise {σ : Type} (w : Watched) {b b' : Budget} (hbounded : b.isUnbounded = false)
    (hle : b.rounds ≤ b'.rounds ∨ b'.isUnbounded = true) (p : Platform σ) (n : Nat) (s : σ) :
    let r := p.run ((w.command b).driver.program none n) s
    let r' := p.run ((w.command b').driver.program none n) s
    ((∀ n' s', r.outcome ≠ .returned (w.late, n') s') → r' = r) ∧
      (∀ n' s', r.outcome = .returned (w.late, n') s' → r.events <+: r'.events) := by
  intro r r'
  -- where the answer is late, the calls that are left need not be the same
  have habridges : ((w.command b).driver.program none n).Abridges (·.1 = w.late) Eq
      ((w.command b').driver.program none n) :=
    (w.abridges ⟨hbounded, hle⟩ n).mono (fun _ ↦ id) fun _ _ h ↦ Prod.ext h.1 h.2
  rcases habridges.run p s with hsame | ⟨⟨answer, n'⟩, s', hlate, houtcome, hprefix⟩
  · exact ⟨fun _ ↦ hsame, fun _ _ _ ↦ (congrArg Run.events hsame).symm ▸ List.prefix_refl _⟩
  · obtain rfl : answer = w.late := hlate
    exact ⟨fun h ↦ absurd houtcome (h n' s'), fun _ _ _ ↦ hprefix⟩

/-- A wait for the accelerator, which is done when the wait begins, and for one front-end of the data
mover, which is done after the first look. -/
def accelerated : Watched := .all (.ofList [.accelerator, .dma .l2ToL1]) ⟨1⟩

/-- With one look it is given up, and with three it is over after two, as it is without a bound. -/
theorem raise_halfDone :
    let run (b : Budget) := Tile.platform.run ((accelerated.command b).driver.program none 5)
      EventUnit.halfDone
    (⟨1⟩ : Budget).isUnbounded = false ∧ (⟨1⟩ : Budget).rounds ≤ (⟨3⟩ : Budget).rounds ∧
      Budget.unbounded.isUnbounded = true ∧
      (∃ s', (run ⟨1⟩).outcome = .returned (accelerated.late, 5) s') ∧
      (run ⟨1⟩).events <+: (run ⟨3⟩).events ∧
      (∃ a s', (run ⟨3⟩).outcome = .returned (a, 4) s' ∧ a ≠ accelerated.late) ∧
      run .unbounded = run ⟨3⟩ := by
  intro run
  have hle : (⟨1⟩ : Budget).rounds ≤ (⟨3⟩ : Budget).rounds := by decide
  obtain ⟨t₁, hlate⟩ : ∃ s', (run ⟨1⟩).outcome = .returned (accelerated.late, 5) s' := ⟨_, rfl⟩
  obtain ⟨a, t₂, hdone, ha⟩ :
      ∃ a s', (run ⟨3⟩).outcome = .returned (a, 4) s' ∧ a ≠ accelerated.late :=
    ⟨_, _, rfl, by decide⟩
  have hprefix := (raise accelerated rfl (.inl hle) Tile.platform 5 EventUnit.halfDone).2 5 t₁ hlate
  refine ⟨rfl, hle, rfl, ⟨t₁, hlate⟩, hprefix, ⟨a, t₂, hdone, ha⟩, ?_⟩
  refine (raise accelerated rfl (.inr rfl) Tile.platform 5 EventUnit.halfDone).1 fun n' s' h ↦ ha ?_
  have hsame := hdone.symm.trans h
  simp only [Outcome.returned.injEq, Prod.mk.injEq] at hsame
  exact hsame.1.1

end Watched
end TileEvents
