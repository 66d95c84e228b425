import TileEvents.Proofs.Cutting
import TileEvents.Proofs.Rounds
import TileEvents.Proofs.Silenced

/-!
# One device

Waiting for all of several devices differs from waiting for one of them only if there are several.
With a single device `waitAll` and `waitAny` do the same (`waitAll_single`), whatever the slice is
that the plan polls in: each round takes the one line or nothing, so the rounds are one poll that
was cut into slices, and their sum is the budget (`Budget.exists_cut`).  Asleep, `waitAll` takes
down the line once more when it is over.

Only the records differ, so what is compared are the accesses of the runs and how they end.
-/

set_option autoImplicit false

namespace TileEvents

namespace Budget

/-- What is left of a budget after so many rounds. -/
def rest (b : Budget) (elapsed : UInt32) : Budget :=
  if b.isUnbounded then b else ⟨b.rounds - elapsed⟩

theorem rest_zero (b : Budget) : b.rest 0 = b := by
  rw [rest, UInt32.sub_zero]
  split <;> rfl

/-- **The next slice is all that is left of the budget, or the slice and what is left after it are
what is left before it.** -/
theorem exists_cut {b slice : Budget} {elapsed : UInt32} (hslice : slice.isUnbounded = false)
    (hleft : b.isExhausted elapsed = false) :
    ∃ r, b.round? slice elapsed = some r ∧
      (b.isExhausted (addSaturating elapsed slice.rounds) = true ∧ r = b.rest elapsed ∨
        b.isExhausted (addSaturating elapsed slice.rounds) = false ∧
          r.Joins (b.rest (addSaturating elapsed slice.rounds)) (b.rest elapsed)) := by
  have hspent : b.isExhausted (addSaturating elapsed slice.rounds) = true ↔ _ :=
    isExhausted_addSaturating_iff
  cases hb : b.isUnbounded with
  | true =>
    have hzero := isUnbounded_iff.1 hb
    refine ⟨slice, if_pos hb, .inr ⟨Bool.eq_false_iff.2 fun h ↦ (hspent.1 h).1 hzero, ?_⟩⟩
    rw [rest, if_pos hb, rest, if_pos hb]
    exact ⟨hslice, .inr ⟨hb, hb⟩⟩
  | false =>
    have hpos := isUnbounded_eq_false_iff.1 hb
    have hslice' := isUnbounded_eq_false_iff.1 hslice
    rw [Bool.eq_false_iff, ne_eq, isExhausted_iff] at hleft
    have hlt : elapsed.toNat < b.rounds.toNat := by omega
    obtain ⟨r, hround, hr⟩ := exists_round? slice hlt
    have toNat_rest {e : UInt32} (he : e.toNat < b.rounds.toNat) :
        (b.rest e).rounds.toNat = b.rounds.toNat - e.toNat := by
      rw [rest, if_neg (Bool.eq_false_iff.1 hb)]
      exact UInt32.toNat_sub_of_le _ _ (UInt32.le_iff_toNat_le.2 (Nat.le_of_lt he))
    refine ⟨r, hround, ?_⟩
    cases hlast : b.isExhausted (addSaturating elapsed slice.rounds) with
    | true =>
      have hsum := (hspent.1 hlast).2
      have heq : r.rounds.toNat = (b.rest elapsed).rounds.toNat := by rw [toNat_rest hlt]; omega
      exact .inl ⟨rfl, congrArg Budget.mk (UInt32.toNat_inj.1 heq)⟩
    | false =>
      have hsum := toNat_addSaturating_of_not_exhausted hb hlast
      have hlt' : (addSaturating elapsed slice.rounds).toNat < b.rounds.toNat := by
        rw [Bool.eq_false_iff, ne_eq, isExhausted_iff] at hlast
        omega
      refine .inr ⟨rfl, isUnbounded_eq_false_iff.2 (by omega), .inl ⟨?_, ?_⟩⟩
      · rw [isUnbounded_eq_false_iff, toNat_rest hlt']
        omega
      · rw [toNat_rest hlt', toNat_rest hlt]
        omega

end Budget

namespace EventUnit

/-! ## Where no records are kept -/

/-- What a wait with a budget makes of what its poll has found. -/
def verdict (seen : EventMask) : Except WaitError EventMask :=
  if seen.isEmpty then .error .timeout else .ok seen

/-- All or nothing of the mask is taken, as there is one line in it. -/
def OneLine (m : EventMask) : Prop :=
  m.isEmpty = false ∧ ∀ seen, seen ⊆ m → seen.isEmpty = false → seen = m

theorem oneLine_single (d : Device) : OneLine (DeviceSet.single d).doneMask := by
  have hmem {i : Nat} : i ∈ (DeviceSet.single d).doneMask ↔ i = d.doneLine.position := by
    simp only [DeviceSet.mem_doneMask, DeviceSet.single, DeviceSet.mem_insert]
    constructor
    · rintro ⟨e, rfl | he, hi⟩
      · exact hi
      · rcases e with _ | ⟨_ | _⟩ | _ <;> exact absurd he (by decide)
    · exact fun hi ↦ ⟨d, .inl rfl, hi⟩
  refine ⟨EventMask.isEmpty_eq_false_iff.2 ⟨_, hmem.2 rfl⟩, fun seen hsub hsome ↦ ?_⟩
  obtain ⟨i, hi⟩ := EventMask.isEmpty_eq_false_iff.1 hsome
  refine EventMask.subset_antisymm hsub (EventMask.subset_iff.2 fun j hj ↦ ?_)
  rwa [hmem.1 hj, ← hmem.1 (EventMask.subset_iff.1 hsub i hi)]

variable {m : EventMask}

theorem OneLine.not_subset_empty (hm : OneLine m) : ¬ m ⊆ ∅ := EventUnit.not_subset_empty hm.1

/-- A polling wait for one of some lines is one poll. -/
theorem waitAnyOf_polling (hm : m.isEmpty = false) (b : Budget) (n : Nat) :
    (waitAnyOf m .polling b).program none n = (verdict <$> poll m b).program none n := by
  rw [waitAnyOf_eq .polling b hm, waitAnyLoop, Driver.loop_eq (descends_waitAnyTurn m .polling b),
    waitAnyTurn, bind_assoc, map_eq_pure_bind, Driver.bind_program, Driver.bind_program]
  refine congrArg _ (funext fun r ↦ ?_)
  unfold verdict
  split <;> rfl

/-- What is left of a poll with a verdict after a slice of it, which has seen something or not. -/
def afterSlice (m : EventMask) (b : Budget) (elapsed : UInt32) (seen : EventMask) :
    Driver (Except WaitError EventMask) :=
  if seen.isEmpty then
    if b.isExhausted elapsed then return .error .timeout
    else verdict <$> poll m (b.rest elapsed)
  else
    return .ok seen

/-- A poll for what is left of a budget is the next slice, and then what is left after that. -/
theorem poll_rest (m : EventMask) {b slice r : Budget} {elapsed : UInt32}
    (hcut : b.isExhausted (addSaturating elapsed slice.rounds) = true ∧ r = b.rest elapsed ∨
      b.isExhausted (addSaturating elapsed slice.rounds) = false ∧
        r.Joins (b.rest (addSaturating elapsed slice.rounds)) (b.rest elapsed)) (n : Nat) :
    (verdict <$> poll m (b.rest elapsed)).program none n =
      (poll m r >>= afterSlice m b (addSaturating elapsed slice.rounds)).program none n := by
  rw [map_eq_pure_bind]
  rcases hcut with ⟨hlast, rfl⟩ | ⟨hnext, hjoins⟩
  · refine congrArg (fun f ↦ (poll m (b.rest elapsed) >>= f).program none n) (funext fun seen ↦ ?_)
    rw [afterSlice, hlast, verdict]
    split <;> rfl
  · rw [Driver.bind_program, poll_joins m hjoins,
      ← Driver.bind_program _ fun seen ↦ pure (verdict seen), bind_assoc]
    refine congrArg (fun f ↦ (poll m r >>= f).program none n) (funext fun seen ↦ ?_)
    rw [afterSlice, hnext, orElse]
    split
    · rw [map_eq_pure_bind]
      rfl
    · next hsome => rw [pure_bind, verdict, if_neg hsome]

/-- **A polling wait for one line**, from one of its rounds on, is one poll for what is left of its
budget. -/
theorem pollRounds_oneLine (hm : OneLine m) {plan : WaitPlan}
    (hslice : plan.slice.isUnbounded = false) (n : Nat) : ∀ c : Charged, c.tally.total = ∅ →
      plan.budget.isExhausted c.elapsed = false →
      (Driver.loop (fun c ↦ (c.tally.missing m).size) (pollRound m plan) c >>= fun a ↦
          pure (a.1.map fun _ ↦ a.2.total)).program none n =
        (verdict <$> poll m (plan.budget.rest c.elapsed)).program none n := by
  induction n using Nat.strongRecOn with
  | _ n ih =>
    rintro ⟨t, elapsed⟩ htotal hleft
    dsimp only at htotal hleft ⊢
    obtain ⟨r, hround, hcut⟩ := Budget.exists_cut hslice hleft
    have hmissing : t.missing m = m := by rw [Tally.missing, htotal, EventMask.sdiff_empty]
    rw [poll_rest m hcut, Driver.loop_eq (descends_pollRound m plan), pollRound]
    dsimp only
    rw [hround, hmissing]
    simp only [bind_assoc]
    rw [Driver.bind_program, Driver.bind_program]
    refine Program.bind_congr (ends_poll m r none n) ?_
    rintro ⟨seen, n₁⟩ ⟨hsub, -, hless⟩
    dsimp only at hsub hless ⊢
    have htotal' : (t.add ⟨m, some r, seen⟩).total = seen := by
      rw [Tally.add, htotal, EventMask.empty_union]
    rw [(silent_reportRound _).bind_program, htotal', afterSlice]
    cases hseen : seen.isEmpty with
    | true =>
      obtain rfl := EventMask.isEmpty_iff.1 hseen
      rw [if_neg hm.not_subset_empty, if_pos rfl]
      split
      · rfl
      · next hnext => exact ih n₁ (hless rfl) _ htotal' (Bool.eq_false_iff.2 hnext)
    | false =>
      obtain rfl := hm.2 seen hsub hseen
      rw [if_pos (EventMask.subset_refl _), if_neg (by simp)]
      exact congrArg (fun total ↦ Program.done (Except.ok total, n₁)) htotal'

theorem waitAll_oneLine_polling {plan : WaitPlan} (hm : OneLine plan.required)
    (hmode : plan.mode = .polling) (hslice : plan.slice.isUnbounded = false) (n : Nat) :
    (waitAll plan).program none n = (waitAny plan).program none n := by
  have hrounds := pollRounds_oneLine hm hslice n ⟨.empty, 0⟩ rfl (by
    rw [Bool.eq_false_iff, ne_eq, Budget.isExhausted_iff]
    rintro ⟨hbounded, hspent⟩
    exact hbounded (Nat.le_zero.1 hspent))
  rw [waitAny, hmode, waitAnyOf_polling hm.1, ← plan.budget.rest_zero, ← hrounds,
    waitAll_eq_polling hmode hm.1, Driver.bind_program, Driver.bind_program]
  refine congrArg _ (funext fun r ↦ ?_)
  obtain ⟨⟨outcome, t⟩, n₁⟩ := r
  cases outcome <;> rfl

/-- Asleep, a wait for one line goes on until it has taken the line, in rounds or in turns. -/
theorem suspendRounds_oneLine (hm : OneLine m) (budget : Budget) (n : Nat) : ∀ t : Tally,
    t.total = ∅ →
      (Driver.loop (fun t ↦ (t.missing m).size) (suspendRound m) t >>= fun t' ↦
          pure (.ok t'.total)).program none n =
        (waitAnyLoop m .suspend budget).program none n := by
  induction n using Nat.strongRecOn with
  | _ n ih =>
    intro t htotal
    have hmissing : t.missing m = m := by rw [Tally.missing, htotal, EventMask.sdiff_empty]
    rw [Driver.loop_eq (descends_suspendRound m), waitAnyLoop,
      Driver.loop_eq (descends_waitAnyTurn m .suspend budget), suspendRound, waitAnyTurn, htotal,
      if_neg hm.not_subset_empty, hmissing, wait]
    simp only [bind_assoc]
    rw [Driver.bind_program, Driver.bind_program]
    refine Program.bind_congr (ends_suspend m none n) ?_
    rintro ⟨seen, n₁⟩ ⟨hsub, -, hless⟩
    dsimp only at hsub hless ⊢
    have htotal' : (t.add ⟨m, none, seen⟩).total = seen := by
      rw [Tally.add, htotal, EventMask.empty_union]
    rw [(silent_reportRound _).bind_program]
    cases hseen : seen.isEmpty with
    | true =>
      obtain rfl := EventMask.isEmpty_iff.1 hseen
      exact ih n₁ (hless rfl) _ htotal'
    | false =>
      obtain rfl := hm.2 seen hsub hseen
      simp only [pure_bind]
      rw [Driver.loop_eq (descends_suspendRound seen), suspendRound, htotal',
        if_pos (EventMask.subset_refl _)]
      exact congrArg (fun total ↦ Program.done (Except.ok total, n₁)) htotal'

/-- Takes down again what a wait has brought. -/
def takeDownAgain : Except WaitError EventMask → Driver (Except WaitError EventMask)
  | .ok m => do
    clear m
    return .ok m
  | .error e => return .error e

theorem waitAll_oneLine_asleep {plan : WaitPlan} (hm : OneLine plan.required)
    (hmode : plan.mode = .suspend) (n : Nat) :
    (waitAll plan).program none n = (waitAny plan >>= takeDownAgain).program none n := by
  rw [waitAny, hmode, waitAnyOf_eq .suspend plan.budget hm.1, Driver.bind_program,
    ← suspendRounds_oneLine hm plan.budget n .empty rfl, waitAll_eq_asleep hmode hm.1]
  rw [← Driver.bind_program, bind_assoc]
  rfl

/-! ## At every verbosity -/

section Runs

variable {σ : Type} {p : Platform σ}

/-- The run `all` is the run `any`, and if that one has brought something, all of it is taken down
once more; there the hardware may break off. -/
def SameAndTakenDown (p : Platform σ) (all any : Run σ (Except WaitError EventMask × Nat)) : Prop :=
  match any.outcome with
  | .returned (.ok m, n') s' =>
    match p.write .eventUnit Register.bufferClear.offset m.bits s' with
    | .ok s'' =>
      all.accesses = any.accesses ++ [.takeDown m] ∧ all.outcome = .returned (.ok m, n') s''
    | .error f => all.accesses = any.accesses ∧ all.outcome = .faulted f
  | _ => all.Same any

theorem run_takeDownAgain (p : Platform σ) (m : EventMask) (n : Nat) (s : σ) :
    p.run ((takeDownAgain (.ok m)).program none n) s =
      match p.write .eventUnit Register.bufferClear.offset m.bits s with
      | .ok s' => ⟨[.takeDown m], .returned (.ok m, n) s'⟩
      | .error f => ⟨[], .faulted f⟩ := by
  show p.run (.step (.write .eventUnit Register.bufferClear.offset m.bits) fun _ ↦
    .done (Except.ok m, n)) s = _
  rw [Platform.run_step, Platform.answer]
  cases p.write .eventUnit Register.bufferClear.offset m.bits s <;> rfl

/-- A wait, and then the same wait with what it has brought taken down again. -/
theorem sameAndTakenDown {x : Driver (Except WaitError EventMask)} {n : Nat} {s : σ}
    {all any : Run σ (Except WaitError EventMask × Nat)}
    (hall : all.Same (p.run ((x >>= takeDownAgain).program none n) s))
    (hany : any.Same (p.run (x.program none n) s)) : SameAndTakenDown p all any := by
  rw [Driver.bind_program, Platform.run_bind] at hall
  rw [SameAndTakenDown, hany.2]
  rcases hrun : p.run (x.program none n) s with ⟨es, ⟨⟨e | m, n'⟩, s'⟩ | f | _⟩
  · rw [hrun] at hall hany
    refine hall.trans (Run.Same.symm ⟨hany.1.trans ?_, hany.2⟩)
    exact congrArg (List.filter _) (List.append_nil es).symm
  · rw [hrun] at hall hany
    have haccesses (es' : List Event) : (es ++ es').filter (fun e ↦ e.record?.isNone) =
        any.accesses ++ es'.filter fun e ↦ e.record?.isNone := by
      rw [List.filter_append, hany.1, Run.accesses]
    simp only [Run.bind, run_takeDownAgain] at hall
    dsimp only
    cases hclear : p.write .eventUnit Register.bufferClear.offset m.bits s' with
    | ok s'' =>
      rw [hclear] at hall
      exact ⟨hall.1.trans (haccesses [.takeDown m]), hall.2⟩
    | error f =>
      rw [hclear] at hall
      exact ⟨(hall.1.trans (haccesses [])).trans (List.append_nil _), hall.2⟩
  · rw [hrun] at hall hany
    exact hall.trans hany.symm
  · rw [hrun] at hall hany
    exact hall.trans hany.symm

/-- **For a single device, waiting for all is waiting for one.**  Whatever settings a plan was made
with, if it selects one device and polls, both waits make the same accesses and come to the same
end, on every hardware.  If it sleeps, they return the same, and the wait for all takes the line
down once more. -/
theorem waitAll_single (p : Platform σ) (before after : List PlanSetting) (mode : WaitMode)
    (d : Device) (hsingle : (WaitPlan.ofSettings before mode after).devices = .single d)
    (v v' : Verbosity) (n : Nat) (s : σ) :
    let plan := WaitPlan.ofSettings before mode after
    let all := p.run ((waitAll plan).program v n) s
    let any := p.run ((waitAny plan).program v' n) s
    (mode = .polling → all.Same any) ∧ (mode = .suspend → SameAndTakenDown p all any) := by
  intro plan all any
  have hm : OneLine plan.required := by
    rw [WaitPlan.required, hsingle]
    exact oneLine_single d
  have hmode : plan.mode = mode := WaitPlan.ofSettings_mode before mode after
  have hslice : plan.slice.isUnbounded = false := WaitPlan.ofSettings_slice before mode after
  have hall : all.Same _ := (plain_waitAll plan).same p v n s
  have hany : any.Same _ := (plain_waitAny plan).same p v' n s
  refine ⟨fun hpolling ↦ ?_, fun hsuspend ↦ ?_⟩
  · rw [waitAll_oneLine_polling hm (hmode.trans hpolling) hslice] at hall
    exact hall.trans hany.symm
  · rw [waitAll_oneLine_asleep hm (hmode.trans hsuspend)] at hall
    exact sameAndTakenDown hall hany

end Runs

/-- The accelerator is done after 25 cycles. -/
def doneSoon : Tile :=
  { Tile.initial with
    mask := .all
    schedule := [⟨25, .edge Line.accDone.mask⟩] }

/-- Wait for the accelerator; if polling, for at most five looks in slices of two. -/
def soon (mode : WaitMode) : WaitPlan :=
  .ofSettings [.slice ⟨2⟩, .budget ⟨5⟩] mode [.device .accelerator]

/-- The accelerator is done in the second slice, or after one sleep. -/
theorem waitAll_single_doneSoon :
    let all (mode : WaitMode) := Tile.platform.run ((waitAll (soon mode)).program none 5) doneSoon
    let any (mode : WaitMode) := Tile.platform.run ((waitAny (soon mode)).program none 5) doneSoon
    (∀ mode, (soon mode).devices = .single .accelerator) ∧
      (∃ t, (any .polling).outcome = .returned (.ok Line.accDone.mask, 2) t) ∧
      (all .polling).Same (any .polling) ∧
      (∃ t, (any .suspend).outcome = .returned (.ok Line.accDone.mask, 4) t) ∧
      SameAndTakenDown Tile.platform (all .suspend) (any .suspend) := by
  intro all any
  have hpolling := waitAll_single Tile.platform [.slice ⟨2⟩, .budget ⟨5⟩] [.device .accelerator]
    .polling .accelerator rfl none none 5 doneSoon
  have hsuspend := waitAll_single Tile.platform [.slice ⟨2⟩, .budget ⟨5⟩] [.device .accelerator]
    .suspend .accelerator rfl none none 5 doneSoon
  exact ⟨fun _ ↦ rfl, ⟨_, rfl⟩, hpolling.1 rfl, ⟨_, rfl⟩, hsuspend.2 rfl⟩

end EventUnit
end TileEvents
