import TileEvents.Platform.Scripted
import TileEvents.Proofs.Interrupted
import TileEvents.Proofs.Polling
import TileEvents.Proofs.Silenced
import TileEvents.Proofs.Uses

/-!
# How a poll ends

A poll asks the hardware again and again which lines are up, and knows nothing else of it.  So what
becomes of a poll is decided by what its looks find (`PollEnds`): it takes what the first look finds
that finds something, it has spent its budget, or it would look for ever and can do so only as often
as the hart may be called.  Besides that, only the hardware can end it, by breaking off.

This is said of every run, with a bound or without (`poll_looks`), so it says when a poll returns
and not only what it returns.  The count of looks stays at the largest word once it gets there, but
a poll that has a budget never sees it there.
-/

set_option autoImplicit false

namespace TileEvents

namespace EventUnit

/-- How a poll ends of which `elapsed` looks were in vain before, with `n` calls of the hart left.
The looks `ups` are in vain, and then it is over. -/
inductive PollEnds {σ : Type} (p : Platform σ) (m : EventMask) (b : Budget) (elapsed n : Nat)
    (ups : List EventMask) : List Event → Outcome σ (EventMask × Nat) → Prop
  /-- A look within the budget finds something, and that is taken down. -/
  | found {up : EventMask} {k : Nat} {s' : σ} (hfound : (up ∩ m).isEmpty = false)
      (hleft : b.isUnbounded = false → elapsed + ups.length < b.rounds.toNat)
      (hcalls : n = k + ups.length) :
      PollEnds p m b elapsed n ups (idle ups ++ [.look up, .takeDown (up ∩ m)])
        (.returned (up ∩ m, k) s')
  /-- The budget is spent. -/
  | spent {k : Nat} {s' : σ} (hbounded : b.isUnbounded = false)
      (hspent : elapsed + ups.length = b.rounds.toNat) (hcalls : n = k + ups.length) :
      PollEnds p m b elapsed n ups (idle ups) (.returned (∅, k) s')
  /-- The hart was called as often as it may be, and there is still budget left. -/
  | uncalled {up : EventMask} (hvain : (up ∩ m).isEmpty = true)
      (hleft : b.isUnbounded = false → elapsed + ups.length < b.rounds.toNat)
      (hcalls : ups.length = n) :
      PollEnds p m b elapsed n ups (idle ups ++ [.look up]) .exhausted
  /-- The hardware breaks off. -/
  | broken {up : EventMask} {es : List Event} {f : Fault} (hes : es <+: [.look up])
      (hf : p.BreaksOff f) : PollEnds p m b elapsed n ups (idle ups ++ es) (.faulted f)

section Runs

variable {σ : Type} {p : Platform σ} {m : EventMask} {b : Budget} {n : Nat} {s : σ}

/-- One more look before that was in vain.  Looks are counted as long as there is a budget. -/
theorem PollEnds.cons {elapsed elapsed' : Nat} {ups : List EventMask} {es : List Event}
    {o : Outcome σ (EventMask × Nat)} (h : PollEnds p m b elapsed' n ups es o)
    (hcount : b.isUnbounded = false → elapsed' = elapsed + 1) (up : EventMask) :
    PollEnds p m b elapsed (n + 1) (up :: ups) (.look up :: .spin pollQuantum :: es) o := by
  have hlength : (up :: ups).length = ups.length + 1 := rfl
  have hleft (h : b.isUnbounded = false → elapsed' + ups.length < b.rounds.toNat)
      (hbounded : b.isUnbounded = false) : elapsed + (up :: ups).length < b.rounds.toNat := by
    have := h hbounded
    have := hcount hbounded
    omega
  cases h with
  | found hfound hmore hcalls => exact .found hfound (hleft hmore) (by omega)
  | spent hbounded hspent hcalls =>
    have := hcount hbounded
    exact .spent hbounded (by omega) (by omega)
  | uncalled hvain hmore hcalls => exact .uncalled hvain (hleft hmore) (by omega)
  | broken hes hf =>
    rw [← List.cons_append, ← List.cons_append, ← idle_cons]
    exact .broken hes hf

/-- What a look in vain makes of a poll, after the delay. -/
def pollVerdict (b : Budget) (elapsed : UInt32) : Driver.Turn UInt32 EventMask :=
  if b.isExhausted (addSaturating elapsed 1) then .stop ∅ else .again (addSaturating elapsed 1)

/-- A run of one turn of a poll, where no records are kept. -/
theorem run_pollTurn (p : Platform σ) (m : EventMask) (b : Budget) (elapsed : UInt32) (n : Nat)
    (s : σ) : ∃ up,
    ((up ∩ m).isEmpty = false ∧ ∃ s', p.run ((pollTurn m b elapsed).program none n) s =
        ⟨[.look up, .takeDown (up ∩ m)], .returned (.stop (up ∩ m), n) s'⟩) ∨
      ((up ∩ m).isEmpty = true ∧ ∃ k s', n = k + 1 ∧
        p.run ((pollTurn m b elapsed).program none n) s =
          ⟨[.look up, .spin pollQuantum], .returned (pollVerdict b elapsed, k) s'⟩) ∨
      ((up ∩ m).isEmpty = true ∧ n = 0 ∧
        p.run ((pollTurn m b elapsed).program none n) s = ⟨[.look up], .exhausted⟩) ∨
      ∃ es f, p.run ((pollTurn m b elapsed).program none n) s = ⟨es, .faulted f⟩ ∧
        es <+: [.look up] ∧ p.BreaksOff f := by
  obtain ⟨up, htake⟩ := run_take p m none n s
  refine ⟨up, ?_⟩
  rw [pollTurn, Driver.bind_program, Platform.run_bind]
  obtain ⟨s₁, htake⟩ | ⟨es, f, htake, hes, hf⟩ := htake
  · rw [htake, taking]
    dsimp only [Run.bind]
    by_cases hup : (up ∩ m).isEmpty = true
    · rw [if_pos hup, if_pos hup, Driver.bind_program, Platform.run_bind]
      obtain ⟨rfl, hspin⟩ | ⟨k, rfl, ⟨s₂, hspin⟩ | ⟨f, hspin, hf⟩⟩ :=
        p.run_spin pollQuantum none n s₁
      · rw [hspin]
        exact .inr (.inr (.inl ⟨hup, rfl, rfl⟩))
      · rw [hspin]
        refine .inr (.inl ⟨hup, k, s₂, rfl, ?_⟩)
        dsimp only [Run.bind]
        rw [pollVerdict]
        split <;> rfl
      · rw [hspin]
        exact .inr (.inr (.inr ⟨_, f, rfl, List.prefix_rfl, hf⟩))
    · rw [if_neg hup, if_neg hup]
      exact .inl ⟨Bool.eq_false_iff.2 hup, s₁, rfl⟩
  · rw [htake]
    exact .inr (.inr (.inr ⟨es, f, rfl, hes, hf⟩))

/-- **How a poll ends, from any look on**, where no records are kept. -/
theorem run_pollLoop (p : Platform σ) (m : EventMask) (b : Budget) (n : Nat) :
    ∀ (elapsed : UInt32) (s : σ), (b.isUnbounded = false → elapsed.toNat < b.rounds.toNat) →
      ∃ ups, (∀ up ∈ ups, (up ∩ m).isEmpty = true) ∧
        PollEnds p m b elapsed.toNat n ups
          (p.run ((Driver.loop (fun _ ↦ 0) (pollTurn m b) elapsed).program none n) s).events
          (p.run ((Driver.loop (fun _ ↦ 0) (pollTurn m b) elapsed).program none n) s).outcome := by
  induction n using Nat.strongRecOn with
  | _ n ih =>
    intro elapsed s helapsed
    have hloop := p.run_loop (descends_pollTurn m b) elapsed none n s
    obtain ⟨up, hturn⟩ := run_pollTurn p m b elapsed n s
    rw [hloop]
    obtain ⟨hup, s', hturn⟩ | ⟨hup, k, s', rfl, hturn⟩ | ⟨hup, rfl, hturn⟩ |
      ⟨es, f, hturn, hes, hf⟩ := hturn
    · rw [hturn]
      exact ⟨[], fun _ h ↦ absurd h List.not_mem_nil, .found hup helapsed rfl⟩
    · rw [hturn]
      rw [pollVerdict]
      obtain ⟨hspent, hbounded, hover⟩ | ⟨hmore, hcount⟩ := spent_or_left helapsed
      · rw [if_pos hspent]
        exact ⟨[up], List.forall_mem_singleton.2 hup, .spent hbounded hover rfl⟩
      · rw [if_neg (Bool.eq_false_iff.1 hmore)]
        obtain ⟨ups, hups, hends⟩ := ih k (Nat.lt_succ_self k) (addSaturating elapsed 1) s'
          fun hbounded ↦ by
            rw [(hcount hbounded).1]
            exact (hcount hbounded).2
        exact ⟨up :: ups, List.forall_mem_cons.2 ⟨hup, hups⟩,
          hends.cons (fun hbounded ↦ (hcount hbounded).1) up⟩
    · rw [hturn]
      exact ⟨[], fun _ h ↦ absurd h List.not_mem_nil, .uncalled hup helapsed rfl⟩
    · rw [hturn]
      exact ⟨[], fun _ h ↦ absurd h List.not_mem_nil, .broken hes hf⟩

/-- A poll that may call the hart for all of its budget comes to its end, or the hardware breaks
off. -/
theorem PollEnds.of_bounded {ups : List EventMask} {es : List Event}
    {o : Outcome σ (EventMask × Nat)} (h : PollEnds p m b 0 n ups es o)
    (hbounded : b.isUnbounded = false) (hn : b.rounds.toNat ≤ n) :
    (∃ seen k s', o = .returned (seen, k) s') ∨ ∃ f, o = .faulted f ∧ p.BreaksOff f := by
  cases h with
  | found => exact .inl ⟨_, _, _, rfl⟩
  | spent => exact .inl ⟨_, _, _, rfl⟩
  | uncalled hvain hleft hcalls =>
    have hless := hleft hbounded
    omega
  | broken hes hf => exact .inr ⟨_, rfl, hf⟩

end Runs

/-- **What a poll makes of any hardware**, whatever its budget.

Some of its looks are in vain, and each of them is followed by one delay.  Then it takes what the
next look finds, or its budget is spent, or it would go on and is exhausted or broken off.  With a
budget, and calls of the hart for all of it, only the hardware can break it off.  The hart is never
put to sleep. -/
theorem poll_looks {σ : Type} (p : Platform σ) (m : EventMask) (b : Budget) (v : Verbosity)
    (n : Nat) (s : σ) :
    let r := p.run ((poll m b).program v n) s
    (∃ ups, (∀ up ∈ ups, (up ∩ m).isEmpty = true) ∧
      PollEnds p m b 0 n ups r.accesses r.outcome) ∧
    (b.isUnbounded = false → b.rounds.toNat ≤ n →
      (∃ seen k s', r.outcome = .returned (seen, k) s') ∨
        ∃ f, r.outcome = .faulted f ∧ p.BreaksOff f) ∧
    ∀ e ∈ r.events, e ≠ .suspend := by
  intro r
  have hends : ∃ ups, (∀ up ∈ ups, (up ∩ m).isEmpty = true) ∧
      PollEnds p m b 0 n ups r.accesses r.outcome := by
    have hrun : p.run ((poll m b).program none n) s = ⟨r.accesses, r.outcome⟩ :=
      (plain_poll m b).run_none p v n s
    obtain ⟨ups, hups, hends⟩ := run_pollLoop p m b n 0 s fun hbounded ↦
      Budget.isUnbounded_eq_false_iff.1 hbounded
    rw [← poll, hrun] at hends
    exact ⟨ups, hups, hends⟩
  refine ⟨hends, fun hbounded hn ↦ ?_, ?_⟩
  · obtain ⟨ups, -, hends⟩ := hends
    exact hends.of_bounded hbounded hn
  · rintro e he rfl
    exact nomatch (orderly_poll (Program.begins_run p _ s)).ofMode _ he

/-- Looks find nothing, the timer, and the accelerator. -/
def doneAtThird : Scripted where
  eventUnit := .ofScript [(Register.bufferMasked.offset,
    [0, Line.timer0.mask.bits, Line.accDone.mask.bits])]
  dma := []

/-- The last look that the budget allows finds the accelerator. -/
theorem poll_looks_doneAtThird :
    (⟨3⟩ : Budget).isUnbounded = false ∧ (⟨3⟩ : Budget).rounds.toNat ≤ 3 ∧ ∃ es ups up s',
      Scripted.platform.run ((poll Line.accDone.mask ⟨3⟩).program none 3) doneAtThird =
        ⟨es, .returned (Line.accDone.mask, 1) s'⟩ ∧
      es = idle ups ++ [.look up, .takeDown Line.accDone.mask] ∧ ups.length = 2 := by
  obtain ⟨es, s', hrun, hall⟩ : ∃ es s',
      Scripted.platform.run ((poll Line.accDone.mask ⟨3⟩).program none 3) doneAtThird =
        ⟨es, .returned (Line.accDone.mask, 1) s'⟩ ∧ (es.filter fun e ↦ e.record?.isNone) = es :=
    ⟨_, _, rfl, rfl⟩
  obtain ⟨⟨ups, -, hends⟩, hreturns, -⟩ :=
    poll_looks Scripted.platform Line.accDone.mask ⟨3⟩ none 3 doneAtThird
  obtain ⟨seen, k, s'', hreturned⟩ | ⟨f, hfault, -⟩ := hreturns rfl (by decide)
  · rw [hreturned, hrun, Run.accesses, hall] at hends
    rw [hrun] at hreturned
    obtain ⟨hpair, rfl⟩ := Outcome.returned.inj hreturned
    obtain ⟨rfl, rfl⟩ := Prod.mk.inj hpair
    generalize ho : Outcome.returned (Line.accDone.mask, 1) s' = o at hends
    cases hends with
    | @found up k s₁ hfound hleft hcalls =>
      obtain ⟨hseen, hk⟩ := Prod.mk.inj (Outcome.returned.inj ho).1
      rw [← hseen] at hrun
      exact ⟨rfl, by decide, _, ups, up, s', hrun, rfl, by omega⟩
    | spent =>
      obtain ⟨hseen, -⟩ := Prod.mk.inj (Outcome.returned.inj ho).1
      exact absurd hseen (by decide)
    | uncalled => exact nomatch ho
    | broken => exact nomatch ho
  · rw [hrun] at hfault
    exact nomatch hfault

end EventUnit
end TileEvents
