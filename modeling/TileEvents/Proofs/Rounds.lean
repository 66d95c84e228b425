import Mathlib.Data.List.Chain
import TileEvents.Proofs.Consumption
import TileEvents.Tile.Hardware

/-!
# The rounds of a wait for all devices

A wait for all devices proceeds in rounds.  Each round asks for what is missing still, and the
lines it sees are missing no more.  So the rounds divide the required lines among them:
`Partitions` says how.

That must not hinge on the wait coming to its end, which it may never do.  `waitAllFor` breaks the
wait off after some rounds, and the wait is that and the rest of it, however many rounds these are
(`waitAllFor_finish`).
-/

set_option autoImplicit false

namespace TileEvents

/-! ## Loops that are broken off -/

namespace Driver

variable {α β σ : Type}

/-- At most so many turns of a loop: the state they lead to, or the value the loop ends with. -/
def turns (body : σ → Driver (Turn σ α)) : Nat → σ → Driver (Turn σ α)
  | 0, s => pure (.again s)
  | k + 1, s => do
    match ← turns body k s with
    | .again s' => body s'
    | .stop a => pure (.stop a)

/-- **A loop is some turns of it and then the rest.** -/
theorem loop_eq_turns {μ : σ → Nat} {body : σ → Driver (Turn σ α)} (h : Descends μ body) (k : Nat)
    (s : σ) : loop μ body s =
      turns body k s >>= fun turn ↦
        match turn with
        | .again s' => loop μ body s'
        | .stop a => pure a := by
  induction k with
  | zero => rw [turns, pure_bind]
  | succ k ih =>
    rw [ih, turns, bind_assoc]
    refine bind_congr fun turn ↦ ?_
    cases turn with
    | again s' => exact loop_eq h s'
    | stop a => rw [pure_bind]

/-- What the turns of a loop have in common: what holds in the beginning and is kept by each turn
holds of the state in the end, and the last turn brings about what each last turn does. -/
theorem does_turns {body : σ → Driver (Turn σ α)} {I : σ → Prop} {Q : α → Prop} {v : Verbosity}
    (hbody : ∀ s n es turn n', I s → (body s).Does v n es turn n' →
      (∀ s', turn = .again s' → I s') ∧ ∀ a, turn = .stop a → Q a)
    {k n n' : Nat} {s : σ} {es : List Event} {turn : Turn σ α} (hs : I s)
    (h : (turns body k s).Does v n es turn n') :
    (∀ s', turn = .again s' → I s') ∧ ∀ a, turn = .stop a → Q a := by
  induction k generalizing es turn n' with
  | zero =>
    obtain ⟨-, rfl, -⟩ := does_pure_iff.1 h
    refine ⟨fun s' hs' ↦ ?_, nofun⟩
    obtain rfl := Turn.again.inj hs'
    exact hs
  | succ k ih =>
    rw [turns, does_bind_iff] at h
    obtain ⟨es₁, turn₁, n₁, es₂, rfl, h₁, h⟩ := h
    obtain ⟨hagain, hstop⟩ := ih h₁
    cases turn₁ with
    | again s' => exact hbody s' n₁ es₂ turn n' (hagain s' rfl) h
    | stop a =>
      obtain ⟨-, rfl, -⟩ := does_pure_iff.1 h
      refine ⟨nofun, fun a' ha' ↦ ?_⟩
      obtain rfl := Turn.stop.inj ha'
      exact hstop a rfl

/-- The same of the whole loop. -/
theorem does_loop_stop {μ : σ → Nat} {body : σ → Driver (Turn σ α)} {I : σ → Prop} {Q : α → Prop}
    {v : Verbosity} (hbody : ∀ s n es turn n', I s → (body s).Does v n es turn n' →
      (∀ s', turn = .again s' → I s') ∧ ∀ a, turn = .stop a → Q a)
    {n n' : Nat} {s : σ} {es : List Event} {a : α} (hs : I s)
    (h : (loop μ body s).Does v n es a n') : Q a :=
  does_loop (R := fun s _ a ↦ I s → Q a)
    (fun s n es a n' h hs ↦ (hbody s n es _ n' hs h).2 a rfl)
    (fun s n es s' n' _ _ h hrest hs ↦ hrest ((hbody s n es _ n' hs h).1 s' rfl)) h hs

end Driver

namespace EventUnit

/-! ## What rounds have in common -/

/-- The rounds, in their order, divide lines of `required` among them. -/
structure Partitions (required : EventMask) (rounds : List Round) : Prop where
  /-- The first round asks for everything. -/
  first : ∀ r, rounds.head? = some r → r.requested = required
  /-- No round asks for nothing. -/
  requested : ∀ r ∈ rounds, r.requested.isEmpty = false
  /-- A round sees what it asked for. -/
  seen : ∀ r ∈ rounds, r.seen ⊆ r.requested
  /-- A round asks for what the one before it left missing. -/
  next : rounds.IsChain fun r r' ↦ r'.requested = r.missing
  /-- No line is seen twice. -/
  disjoint : rounds.Pairwise fun r r' ↦ r.seen.intersects r'.seen = false
  /-- No line that was seen is asked for again. -/
  once : rounds.Pairwise fun r r' ↦ r.seen.intersects r'.requested = false

/-- One more round that asks for what the last one left missing. -/
theorem Partitions.concat {required : EventMask} {rounds : List Round} {r : Round}
    (h : Partitions required rounds) (hfirst : rounds = [] → r.requested = required)
    (hrequested : r.requested.isEmpty = false) (hseen : r.seen ⊆ r.requested)
    (hnext : ∀ r' ∈ rounds.getLast?, r.requested = r'.missing)
    (honce : ∀ r' ∈ rounds, r'.seen.intersects r.requested = false) :
    Partitions required (rounds ++ [r]) where
  first r' hr' := by
    cases rounds with
    | nil =>
      obtain rfl := Option.some.inj hr'
      exact hfirst rfl
    | cons r₁ rounds => exact h.first r' hr'
  requested := List.forall_mem_append.2 ⟨h.requested, List.forall_mem_singleton.2 hrequested⟩
  seen := List.forall_mem_append.2 ⟨h.seen, List.forall_mem_singleton.2 hseen⟩
  next := by
    refine List.isChain_append.2 ⟨h.next, List.isChain_singleton r, fun r' hr' r₁ hr₁ ↦ ?_⟩
    obtain rfl := Option.some.inj hr₁
    exact hnext r' hr'
  disjoint := by
    refine List.pairwise_append.2 ⟨h.disjoint, List.pairwise_singleton _ r, fun r' hr' r₁ hr₁ ↦ ?_⟩
    obtain rfl := List.mem_singleton.1 hr₁
    have hnone := honce r' hr'
    rw [Bool.eq_false_iff, ne_eq, EventMask.intersects_iff] at hnone ⊢
    rintro ⟨b, hb, hb'⟩
    exact hnone ⟨b, hb, EventMask.subset_iff.1 hseen b hb'⟩
  once := by
    refine List.pairwise_append.2 ⟨h.once, List.pairwise_singleton _ r, fun r' hr' r₁ hr₁ ↦ ?_⟩
    obtain rfl := List.mem_singleton.1 hr₁
    exact honce r' hr'

/-- The tally of rounds each of which asked for what was missing, as long as something was. -/
inductive Accrued (required : EventMask) : Tally → Prop
  | empty : Accrued required .empty
  | add {t : Tally} {r : Round} (h : Accrued required t) (hmissing : ¬ required ⊆ t.total)
      (hrequested : r.requested = t.missing required) (hseen : r.seen ⊆ r.requested) :
      Accrued required (t.add r)

namespace Accrued

variable {required : EventMask} {t : Tally}

theorem total_subset (h : Accrued required t) : t.total ⊆ required := by
  induction h with
  | empty => exact EventMask.empty_subset required
  | add h _ hrequested hseen ih =>
    rw [hrequested] at hseen
    exact EventMask.union_subset.2 ⟨ih, EventMask.subset_trans hseen (EventMask.sdiff_subset _ _)⟩

theorem mem_total_iff (h : Accrued required t) {b : Nat} :
    b ∈ t.total ↔ ∃ r ∈ t.rounds, b ∈ r.seen := by
  induction h with
  | empty => simp [Tally.empty]
  | add h _ _ _ ih => simp [Tally.add, ih, or_comm]

/-- **The total is what the rounds saw.** -/
theorem unions_seen (h : Accrued required t) :
    EventMask.unions (t.rounds.reverse.map Round.seen) = t.total := by
  refine EventMask.ext_mem fun b ↦ ?_
  rw [h.mem_total_iff, EventMask.mem_unions]
  simp only [List.mem_map, List.mem_reverse, exists_exists_and_eq_and]

theorem eq_empty (h : Accrued required t) (ht : t.rounds = []) : t = .empty := by
  cases h with
  | empty => rfl
  | add => exact absurd ht (List.cons_ne_nil _ _)

theorem missing_last (h : Accrued required t) {r : Round} (hr : t.rounds.head? = some r) :
    r.missing = t.missing required := by
  cases h with
  | empty => exact nomatch hr
  | add h _ hrequested _ =>
    obtain rfl := Option.some.inj hr
    rw [Tally.missing_add, ← hrequested, Round.missing]

/-- What a round saw is not missing afterwards. -/
theorem not_mem_missing (h : Accrued required t) {r : Round} (hr : r ∈ t.rounds) {b : Nat}
    (hb : b ∈ r.seen) : ¬ b ∈ t.missing required := by
  intro hmissing
  exact (EventMask.mem_sdiff.1 hmissing).2 (h.mem_total_iff.2 ⟨r, hr, hb⟩)

theorem partitions (h : Accrued required t) : Partitions required t.rounds.reverse := by
  induction h with
  | empty =>
    exact ⟨nofun, nofun, nofun, List.isChain_nil, List.Pairwise.nil, List.Pairwise.nil⟩
  | @add t r h hmissing hrequested hseen ih =>
    rw [Tally.add, List.reverse_cons]
    refine ih.concat ?_ ?_ hseen ?_ ?_
    · intro hnil
      obtain rfl : t = .empty := h.eq_empty (List.reverse_eq_nil_iff.1 hnil)
      rw [hrequested]
      exact EventMask.sdiff_empty required
    · rw [hrequested, Bool.eq_false_iff, ne_eq, Tally.missing, EventMask.sdiff_isEmpty_iff]
      exact hmissing
    · intro r' hr'
      rw [List.getLast?_reverse] at hr'
      rw [hrequested, h.missing_last hr']
    · intro r' hr'
      rw [hrequested, Bool.eq_false_iff, ne_eq, EventMask.intersects_iff]
      rintro ⟨b, hb, hb'⟩
      exact h.not_mem_missing (List.mem_reverse.1 hr') hb hb'

end Accrued

/-- The rounds are over: well if nothing is missing, and otherwise because time ran out. -/
def Settled (required : EventMask) (outcome : Except WaitError Unit) (t : Tally) : Prop :=
  Accrued required t ∧
    (outcome = .ok () ∧ required ⊆ t.total ∨ outcome = .error .timeout ∧ ¬ required ⊆ t.total)

/-! ## One round of either kind -/

section Paths

variable {required : EventMask} {v : Verbosity} {n n' : Nat} {es : List Event}

theorem accrued_suspendRound {t : Tally} {turn : Driver.Turn Tally Tally}
    (ht : Accrued required t) (h : (suspendRound required t).Does v n es turn n') :
    (∀ t', turn = .again t' → Accrued required t') ∧
      ∀ t', turn = .stop t' → Settled required (.ok ()) t' := by
  obtain ⟨hall, -, rfl⟩ | ⟨hmissing, r, hrequested, -, hseen, rfl⟩ := consumes_suspendRound h
  · refine ⟨nofun, fun t' ht' ↦ ?_⟩
    obtain rfl := Driver.Turn.stop.inj ht'
    exact ⟨ht, .inl ⟨rfl, hall⟩⟩
  · refine ⟨fun t' ht' ↦ ?_, nofun⟩
    obtain rfl := Driver.Turn.again.inj ht'
    exact .add ht hmissing hrequested hseen

theorem accrued_pollRound {plan : WaitPlan} {c : Charged}
    {turn : Driver.Turn Charged (Except WaitError Unit × Tally)}
    (hc : Accrued required c.tally ∧ ¬ required ⊆ c.tally.total)
    (h : (pollRound required plan c).Does v n es turn n') :
    (∀ c', turn = .again c' → Accrued required c'.tally ∧ ¬ required ⊆ c'.tally.total) ∧
      ∀ a, turn = .stop a → Settled required a.1 a.2 := by
  obtain ⟨r, hrequested, -, hseen, hend⟩ := consumes_pollRound h
  have hadd : Accrued required (c.tally.add r) := .add hc.1 hc.2 hrequested hseen
  rcases hend with ⟨rfl, hall⟩ | ⟨hmissing, rfl | ⟨elapsed, rfl⟩⟩
  · refine ⟨nofun, fun a ha ↦ ?_⟩
    obtain rfl := Driver.Turn.stop.inj ha
    exact ⟨hadd, .inl ⟨rfl, hall⟩⟩
  · refine ⟨nofun, fun a ha ↦ ?_⟩
    obtain rfl := Driver.Turn.stop.inj ha
    exact ⟨hadd, .inr ⟨rfl, hmissing⟩⟩
  · refine ⟨fun c' hc' ↦ ?_, nofun⟩
    obtain rfl := Driver.Turn.again.inj hc'
    exact ⟨hadd, hmissing⟩

end Paths

/-! ## A wait that is broken off -/

/-- A wait for all devices after some of its rounds. -/
inductive Underway
  /-- It sleeps between looks. -/
  | asleep (turn : Driver.Turn Tally Tally)
  /-- It polls. -/
  | polling (turn : Driver.Turn Charged (Except WaitError Unit × Tally))

namespace Underway

def tally : Underway → Tally
  | asleep (.again t) => t
  | asleep (.stop t) => t
  | polling (.again c) => c.tally
  | polling (.stop (_, t)) => t

/-- The rounds so far, in their order. -/
def rounds (u : Underway) : List Round := u.tally.rounds.reverse

/-- What the wait asks for next, if it is not over. -/
def next? (required : EventMask) : Underway → Option EventMask
  | asleep (.again t) => if required ⊆ t.total then none else some (t.missing required)
  | asleep (.stop _) => none
  | polling (.again c) => some (c.tally.missing required)
  | polling (.stop _) => none

/-- The rest of the wait. -/
def finish (plan : WaitPlan) (u : Underway) : Driver (Except WaitError EventMask × List Round) := do
  let required := plan.required
  let (outcome, tally) ← match u with
    | asleep turn => do
      let tally ← match turn with
        | .again t =>
          Driver.loop (fun t ↦ (t.missing required).size) (suspendRound required) t
        | .stop t => pure t
      clear tally.total
      pure (.ok (), tally)
    | polling turn =>
      match turn with
      | .again c =>
        Driver.loop (fun c ↦ (c.tally.missing required).size) (pollRound required plan) c
      | .stop a => pure a
  match outcome with
  | .ok () =>
    Driver.report .debug fun _ ↦ s!"wait_all: {tally.total.describe} complete"
    return (.ok tally.total, tally.rounds.reverse)
  | .error e => return (.error e, tally.rounds.reverse)

end Underway

/-- At most so many rounds of a wait for all devices. -/
def waitAllFor (plan : WaitPlan) (k : Nat) : Driver Underway :=
  match plan.mode with
  | .suspend => do return .asleep (← Driver.turns (suspendRound plan.required) k .empty)
  | .polling => do return .polling (← Driver.turns (pollRound plan.required plan) k ⟨.empty, 0⟩)

/-- **A wait is some rounds of it and then the rest.** -/
theorem waitAllFor_finish {plan : WaitPlan} (h : plan.required.isEmpty = false) (k : Nat) :
    waitAllRounds plan = waitAllFor plan k >>= Underway.finish plan := by
  rw [waitAllRounds, waitAllFor]
  dsimp only
  rw [if_neg (Bool.eq_false_iff.1 h)]
  cases plan.mode with
  | suspend =>
    dsimp only
    rw [suspendRounds, Driver.loop_eq_turns (descends_suspendRound plan.required) k]
    simp only [bind_assoc, pure_bind, Underway.finish]
    refine bind_congr fun turn ↦ ?_
    cases turn with
    | again s => rfl
    | stop a => exact pure_bind a _
  | polling =>
    dsimp only
    rw [pollRounds, Driver.loop_eq_turns (descends_pollRound plan.required plan) k]
    simp only [bind_assoc, pure_bind, Underway.finish]
    refine bind_congr fun turn ↦ ?_
    cases turn with
    | again s => rfl
    | stop a => exact pure_bind a _

theorem not_subset_empty {required : EventMask} (h : required.isEmpty = false) :
    ¬ required ⊆ Tally.empty.total := by
  rw [← EventMask.sdiff_isEmpty_iff, Bool.not_eq_true]
  exact (congrArg EventMask.isEmpty (EventMask.sdiff_empty required)).trans h

/-- The rounds so far of a wait that was broken off, and the one it would go on with. -/
theorem partitions_waitAllFor {plan : WaitPlan} (h : plan.required.isEmpty = false) {k : Nat}
    {v : Verbosity} {n n' : Nat} {es : List Event} {u : Underway}
    (hdoes : (waitAllFor plan k).Does v n es u n') :
    Partitions plan.required u.rounds ∧ ∀ q ∈ u.next? plan.required,
      Partitions plan.required (u.rounds ++ [⟨q, none, ∅⟩]) := by
  have hempty := not_subset_empty h
  -- a round that has not seen anything yet could still be added
  have hnext : ∀ {t}, Accrued plan.required t → ¬ plan.required ⊆ t.total →
      Partitions plan.required (t.rounds.reverse ++ [⟨t.missing plan.required, none, ∅⟩]) := by
    intro t ht hmissing
    have hadd := ht.add (r := ⟨t.missing plan.required, none, ∅⟩) hmissing rfl
      (EventMask.empty_subset _)
    have key := hadd.partitions
    rwa [Tally.add, List.reverse_cons] at key
  unfold waitAllFor at hdoes
  cases hmode : plan.mode with
  | suspend =>
    rw [hmode] at hdoes
    obtain ⟨turn, rfl, hturns⟩ := Driver.does_bind_pure_iff.1 hdoes
    obtain ⟨hagain, hstop⟩ := Driver.does_turns (I := Accrued plan.required)
      (Q := Settled plan.required (.ok ())) (fun _ _ _ _ _ ↦ accrued_suspendRound) .empty hturns
    cases turn with
    | again t =>
      refine ⟨(hagain t rfl).partitions, fun q hq ↦ ?_⟩
      rw [Underway.next?] at hq
      split at hq
      · exact nomatch hq
      · next hmissing =>
        obtain rfl := Option.some.inj hq
        exact hnext (hagain t rfl) hmissing
    | stop t => exact ⟨(hstop t rfl).1.partitions, nofun⟩
  | polling =>
    rw [hmode] at hdoes
    obtain ⟨turn, rfl, hturns⟩ := Driver.does_bind_pure_iff.1 hdoes
    obtain ⟨hagain, hstop⟩ := Driver.does_turns
      (I := fun c ↦ Accrued plan.required c.tally ∧ ¬ plan.required ⊆ c.tally.total)
      (Q := fun a ↦ Settled plan.required a.1 a.2) (fun _ _ _ _ _ ↦ accrued_pollRound)
      ⟨.empty, hempty⟩ hturns
    cases turn with
    | again c =>
      refine ⟨(hagain c rfl).1.partitions, fun q hq ↦ ?_⟩
      obtain rfl := Option.some.inj hq
      exact hnext (hagain c rfl).1 (hagain c rfl).2
    | stop a => exact ⟨(hstop a rfl).1.partitions, nofun⟩

/-- The rounds of a wait that came to its end. -/
theorem settled_waitAllRounds {plan : WaitPlan} (h : plan.required.isEmpty = false)
    {v : Verbosity} {n n' : Nat} {es : List Event} {answer : Except WaitError EventMask}
    {rounds : List Round} (hdoes : (waitAllRounds plan).Does v n es (answer, rounds) n') :
    ∃ outcome t, Settled plan.required outcome t ∧ answer = outcome.map (fun _ ↦ t.total) ∧
      rounds = t.rounds.reverse := by
  obtain ⟨hempty, -⟩ | ⟨es', outcome, t, n₁, records, rfl, rfl, -, hrounds⟩ :=
    does_waitAllRounds hdoes
  · exact absurd hempty (Bool.eq_false_iff.1 h)
  refine ⟨outcome, t, ?_, rfl, rfl⟩
  obtain ⟨-, hrounds, rfl, -⟩ | ⟨-, hrounds, -⟩ := hrounds
  · exact Driver.does_loop_stop (I := Accrued plan.required)
      (Q := Settled plan.required (.ok ())) (fun _ _ _ _ _ ↦ accrued_suspendRound) .empty hrounds
  · exact Driver.does_loop_stop
      (I := fun c ↦ Accrued plan.required c.tally ∧ ¬ plan.required ⊆ c.tally.total)
      (Q := fun a ↦ Settled plan.required a.1 a.2) (fun _ _ _ _ _ ↦ accrued_pollRound)
      ⟨.empty, not_subset_empty h⟩ hrounds

/-- **The rounds of a wait divide the required lines among them, on any hardware.**

At any point the rounds so far, and the one that is going on, ask for what the earlier ones left
missing; the wait is those rounds and then the rest of it.  If it returns, it answers with all of
the required lines and these are the lines the rounds saw, or its time is up and the rounds saw
some of them but not all. -/
theorem waitAll_partitions {σ : Type} (p : Platform σ) (plan : WaitPlan)
    (h : plan.required.isEmpty = false) (v : Verbosity) (n : Nat) (s : σ) :
    (∀ k, waitAllRounds plan = waitAllFor plan k >>= Underway.finish plan ∧
      ∀ es u n' s', p.run ((waitAllFor plan k).program v n) s = ⟨es, .returned (u, n') s'⟩ →
        Partitions plan.required u.rounds ∧ ∀ q ∈ u.next? plan.required,
          Partitions plan.required (u.rounds ++ [⟨q, none, ∅⟩])) ∧
    ∀ es answer rounds n' s',
      p.run ((waitAllRounds plan).program v n) s = ⟨es, .returned ((answer, rounds), n') s'⟩ →
      Partitions plan.required rounds ∧
        (answer = .ok plan.required ∧
            EventMask.unions (rounds.map Round.seen) = plan.required ∨
          answer = .error .timeout ∧
            EventMask.unions (rounds.map Round.seen) ⊆ plan.required ∧
            EventMask.unions (rounds.map Round.seen) ≠ plan.required) := by
  refine ⟨fun k ↦ ⟨waitAllFor_finish h k, fun es u n' s' hrun ↦ ?_⟩, ?_⟩
  · exact partitions_waitAllFor h (.of_run hrun)
  · intro es answer rounds n' s' hrun
    obtain ⟨outcome, t, ⟨haccrued, hend⟩, rfl, rfl⟩ := settled_waitAllRounds h (.of_run hrun)
    refine ⟨haccrued.partitions, ?_⟩
    rw [haccrued.unions_seen]
    rcases hend with ⟨rfl, hall⟩ | ⟨rfl, hmissing⟩
    · have htotal := EventMask.subset_antisymm haccrued.total_subset hall
      rw [htotal]
      exact .inl ⟨rfl, rfl⟩
    · refine .inr ⟨rfl, haccrued.total_subset, fun htotal ↦ hmissing ?_⟩
      rw [htotal]
      exact EventMask.subset_refl _

/-- Sleep until the accelerator and one front-end of the data mover are done. -/
def bothDone : WaitPlan where
  devices := .ofList [.accelerator, .dma .l2ToL1]
  mode := .suspend
  budget := .default
  slice := .defaultSlice

/-- A tile whose accelerator is done and whose data mover will be. -/
def halfDone : Tile :=
  { Tile.initial with
    buffer := Line.accDone.mask
    mask := .all
    schedule := [⟨5, .edge (Line.dma .l2ToL1 .done).mask⟩] }

/-- Each of the two rounds sees one of the lines. -/
theorem partitions_halfDone :
    bothDone.required.isEmpty = false ∧ ∃ es rounds n' s',
      Tile.platform.run ((waitAllRounds bothDone).program none 1) halfDone =
        ⟨es, .returned ((.ok bothDone.required, rounds), n') s'⟩ ∧
      rounds.map Round.seen = [Line.accDone.mask, (Line.dma .l2ToL1 .done).mask] ∧
      Partitions bothDone.required rounds := by
  obtain ⟨es, rounds, n', s', hrun, hseen⟩ : ∃ es rounds n' s',
      Tile.platform.run ((waitAllRounds bothDone).program none 1) halfDone =
        ⟨es, .returned ((.ok bothDone.required, rounds), n') s'⟩ ∧
      rounds.map Round.seen = [Line.accDone.mask, (Line.dma .l2ToL1 .done).mask] :=
    ⟨_, _, _, _, rfl, rfl⟩
  have hwait := waitAll_partitions Tile.platform bothDone rfl none 1 halfDone
  exact ⟨rfl, es, rounds, n', s', hrun, hseen, (hwait.2 es _ rounds n' s' hrun).1⟩

end EventUnit
end TileEvents
