import TileEvents.Proofs.Operations
import TileEvents.Proofs.Sleep

/-!
# Waiting awake for all devices

A wait that polls without a budget goes on until it has seen all of its lines, and on a simulated
tile it can be told beforehand when that will be.  It looks at the tile when it begins and after
every delay, so it ends at the first such look by which the last line has come up: after
`Tile.ticks` delays, and after none if the lines are up from the beginning.

How the looks are spread over the rounds, and which of them take a line, depends on the slice.
`Sleep.Watch` holds at every point of such a wait, whatever the slice: it says how many delays have
passed, and that everything has fired that is due by then.
-/

set_option autoImplicit false

namespace TileEvents

namespace Tile

/-- How many delays pass until a time has come, but one at least. -/
def ticksUntil (t : Tile) (time : Nat) : Nat :=
  max 1 ((time - t.now + (pollQuantum.toNat - 1)) / pollQuantum.toNat)

theorem ticksUntil_le_iff {t : Tile} {time k : Nat} :
    t.ticksUntil time ≤ k ↔ 1 ≤ k ∧ time ≤ t.now + pollQuantum.toNat * k := by
  have hquantum : pollQuantum.toNat = 10 := rfl
  rw [ticksUntil, hquantum]
  omega

/-- How many delays pass until all of the lines have come up: none if they are up. -/
def ticks (t : Tile) (required : EventMask) : Nat :=
  if required ⊆ t.buffer then 0 else t.ticksUntil (t.completion required)

/-- The clock does not get in the way of a wait for these lines that polls. -/
structure Pollable (t : Tile) (required : EventMask) : Prop extends Able t required where
  clock : t.now + pollQuantum.toNat * t.ticks required < clockLimit

end Tile

namespace Sleep

open EventUnit

variable {t : Tile} {x y : Sleep} {required total m : EventMask} {j : Nat}

/-- The clock moves on while the hart spins. -/
def tick (x : Sleep) (now : Nat) (rest : Schedule) : Sleep :=
  { x.advance now rest with suspends := x.suspends }

theorem afterSleep_tick (t : Tile) (x : Sleep) (now : Nat) (rest : Schedule) :
    t.afterSleep (x.tick now rest) =
      { t.afterSleep x with now := now }.afterFiring (x.rest.dueBy now) rest :=
  congrArg (fun u : Tile ↦ { u with suspends := t.suspends + x.suspends })
    (afterSleep_advance t x now rest)

/-! ## What holds all the time -/

/-- What a wait that polls has brought a tile to that was like `t` when it began, after so many
delays. -/
structure Watch (t : Tile) (required total : EventMask) (j : Nat) (x : Sleep) : Prop
    extends Kept t required total x where
  now : x.now = t.now + pollQuantum.toNat * j
  /-- Nothing happens before the first delay, -/
  fresh : j = 0 → x.fired = []
  /-- and everything that is due has fired after it. -/
  later : 0 < j → ∀ e ∈ x.rest, x.now < e.due

namespace Watch

theorem start_empty (t : Tile) (required : EventMask) : Watch t required ∅ 0 (Sleep.start t) :=
  { Kept.start_empty t required with
    now := rfl
    fresh := fun _ ↦ rfl
    later := fun h ↦ absurd h (Nat.lt_irrefl 0) }

/-- The missing lines that are up are taken. -/
theorem take (h : Watch t required total j x) :
    Watch t required (total ∪ (x.buffer ∩ (required \ total))) j (x.take (required \ total)) :=
  { h.toKept.take with
    now := by simpa using h.now
    fresh := by simpa using h.fresh
    later := by simpa using h.later }

theorem tick (h : Watch t required total j x) {rest : Schedule}
    (hrest : rest.Perm (x.rest.dueAfter (x.now + pollQuantum.toNat))) :
    Watch t required total (j + 1) (x.tick (x.now + pollQuantum.toNat) rest) :=
  { h.toKept.advance (Nat.le_add_right _ _) hrest with
    now := by
      show x.now + pollQuantum.toNat = _
      rw [h.now, Nat.mul_succ, Nat.add_assoc]
    fresh := fun hzero ↦ absurd hzero (Nat.succ_ne_zero j)
    later := fun _ e he ↦ (Schedule.mem_dueAfter.1 (hrest.mem_iff.1 he)).2 }

/-- By the time that all is complete, every line that was not taken is up. -/
theorem mem_buffer (h : Watch t required total j x) (hwoken : t.Wakes required)
    (hj : t.ticks required ≤ j) {b : Nat} (hb : b ∈ required) (hnew : ¬ b ∈ total) :
    b ∈ x.buffer := by
  rw [h.up b hnew]
  by_cases hup : b ∈ t.buffer
  · exact .inl hup
  rw [Tile.ticks, if_neg fun hall ↦ hup (EventMask.subset_iff.1 hall b hb),
    Tile.ticksUntil_le_iff, ← h.now] at hj
  obtain ⟨e, he, hlines⟩ := (hwoken b hb).resolve_left hup
  obtain ⟨-, e', he', hlines', hdue⟩ := Tile.edgeTime_spec he hlines
  have hdue' : e'.due ≤ x.now := by
    rw [hdue]
    exact Nat.le_trans (Tile.edgeTime_le_completion hb hup) hj.2
  have hfired : e' ∈ x.fired :=
    (List.mem_append.1 (h.perm.mem_iff.1 he')).resolve_right fun hleft ↦
      Nat.not_lt.2 hdue' (h.later hj.1 e' hleft)
  exact .inr (Schedule.mem_lines.2 ⟨e', hfired, hlines'⟩)

/-- **No wait has seen all of the lines before that.** -/
theorem ticks_le (h : Watch t required total j x) (hall : required ⊆ total) :
    t.ticks required ≤ j := by
  have hseen : ∀ b, b ∈ required → ¬ b ∈ t.buffer → ∃ e ∈ x.fired, b ∈ e.stimulus.lines :=
    fun b hb hdown ↦ Schedule.mem_lines.1
      ((h.seen b (EventMask.subset_iff.1 hall b hb)).resolve_left hdown)
  rw [Tile.ticks]
  split
  · exact Nat.zero_le j
  · next hdown =>
    rw [Tile.ticksUntil_le_iff, Tile.completion_le_iff, ← h.now]
    refine ⟨Nat.pos_of_ne_zero fun hzero ↦ ?_, ?_, fun b hb hnot ↦ ?_⟩
    · rw [EventMask.subset_iff] at hdown
      refine hdown fun b hb ↦ Classical.byContradiction fun hnot ↦ ?_
      obtain ⟨e, he, -⟩ := hseen b hb hnot
      rw [h.fresh hzero] at he
      exact List.not_mem_nil he
    · rw [h.now]
      exact Nat.le_add_right _ _
    · obtain ⟨e, he, hlines⟩ := hseen b hb hnot
      have hmem : e ∈ t.schedule := h.perm.mem_iff.2 (List.mem_append_left _ he)
      exact Nat.le_trans (Tile.edgeTime_spec hmem hlines).1 (h.due e he)

end Watch

/-! ## What a wait that polls does to a tile -/

variable {v : Verbosity} {n : Nat}

/-- A delay, after which everything has fired that is due. -/
theorem Watch.exists_spin (h : Watch t required total j x) (hsolvent : t.Solvent)
    (hclock : t.now + pollQuantum.toNat * (j + 1) < clockLimit) (v : Verbosity) (n : Nat) :
    ∃ y, Watch t required total (j + 1) y ∧
      Tile.platform.Returns (Driver.spin pollQuantum) v (n + 1) (t.afterSleep x) () n
        (t.afterSleep y) := by
  have hleft : { t.afterSleep x with now := x.now + pollQuantum.toNat }.Solvent :=
    hsolvent.afterFiring h.perm
  obtain ⟨rest, hrest, hfire⟩ := Tile.fireDue_eq (hleft.by _)
  refine ⟨_, h.tick hrest, Platform.returns_spin_iff.2 ⟨rfl, ?_⟩⟩
  have hnow : ¬ clockLimit ≤ x.now + pollQuantum.toNat := by
    rw [h.now, Nat.add_assoc, ← Nat.mul_succ]
    exact Nat.not_le.2 hclock
  rw [afterSleep_tick]
  exact (if_neg hnow).trans hfire

/-- A look that finds something. -/
theorem returns_pollTurn_of_up (budget : Budget) (elapsed : UInt32) (hm : m ⊆ t.mask)
    (hroom : HasRoom t x) (hup : (x.buffer ∩ m).isEmpty = false) :
    Tile.platform.Returns (pollTurn m budget elapsed) v n (t.afterSleep x)
      (.stop (x.buffer ∩ m)) n (t.afterSleep (x.take m)) := by
  refine (returns_take hm hroom).bind ?_
  rw [if_neg (Bool.eq_false_iff.1 hup)]
  exact (Platform.returns_report _ _).bind (Platform.returns_pure _)

/-- A look that finds nothing, and a delay. -/
theorem returns_pollTurn_of_down (budget : Budget) (elapsed : UInt32) (hm : m ⊆ t.mask)
    (hroom : HasRoom t x) (hdown : (x.buffer ∩ m).isEmpty = true)
    (hspin : Tile.platform.Returns (Driver.spin pollQuantum) v (n + 1) (t.afterSleep x) () n
      (t.afterSleep y)) :
    Tile.platform.Returns (pollTurn m budget elapsed) v (n + 1) (t.afterSleep x)
      (if budget.isExhausted (addSaturating elapsed 1) then .stop ∅
        else .again (addSaturating elapsed 1)) n (t.afterSleep y) := by
  have htake : x.take m = x := if_pos hdown
  have hlook := returns_take (v := v) (n := n + 1) hm hroom
  rw [htake] at hlook
  refine hlook.bind ?_
  rw [if_pos hdown]
  refine hspin.bind ?_
  dsimp only
  split
  · exact (Platform.returns_report _ _).bind (Platform.returns_pure _)
  · exact Platform.returns_pure _

/-- There is a delay left while the missing lines are down. -/
theorem Watch.lt_ticks (h : Watch t required total j x) (hwoken : t.Wakes required)
    (hmissing : ¬ required ⊆ total) (hdown : (x.buffer ∩ (required \ total)).isEmpty = true) :
    j < t.ticks required := by
  refine Nat.lt_of_not_le fun hj ↦ ?_
  rw [← EventMask.sdiff_isEmpty_iff, Bool.not_eq_true, EventMask.isEmpty_eq_false_iff] at hmissing
  obtain ⟨b, hb⟩ := hmissing
  obtain ⟨hrequired, hnew⟩ := EventMask.mem_sdiff.1 hb
  refine EventMask.not_mem_empty b ?_
  rw [← EventMask.isEmpty_iff.1 hdown]
  exact EventMask.mem_inter.2 ⟨h.mem_buffer hwoken hj hrequired hnew, hb⟩

/-- **A poll while a line is missing** takes some of them, or its budget runs out; either way no
later than all is complete.  So it does from any of its turns on. -/
theorem Watch.exists_poll (h : Watch t required total j x) (ht : t.Pollable required)
    (hmissing : ¬ required ⊆ total) (hj : j ≤ t.ticks required) (hn : t.ticks required ≤ n + j)
    (budget : Budget) (elapsed : UInt32) :
    ∃ seen n' j' y, Tile.platform.Returns
        (Driver.loop (fun _ ↦ 0) (pollTurn (required \ total) budget) elapsed) v n (t.afterSleep x)
        seen n' (t.afterSleep y) ∧
      Watch t required (total ∪ seen) j' y ∧ seen ⊆ required \ total ∧
      j' ≤ t.ticks required ∧ n' + j' = n + j ∧ j ≤ j' ∧ (seen.isEmpty = true → j < j') := by
  have hreported : required \ total ⊆ t.mask :=
    EventMask.subset_trans (EventMask.sdiff_subset _ _) ht.reported
  have hdescends := descends_pollTurn (required \ total) budget
  -- by induction on the delays that are left
  induction hk : t.ticks required - j using Nat.strongRecOn generalizing x j n elapsed with
  | _ k ih =>
    have hroom := h.hasRoom ht.room
    cases hup : (x.buffer ∩ (required \ total)).isEmpty with
    | false =>
      have hturn := returns_pollTurn_of_up (v := v) (n := n) budget elapsed hreported hroom hup
      exact ⟨_, n, j, _, .loop_stop hdescends hturn, h.take, EventMask.inter_subset_right _ _, hj,
        rfl, Nat.le_refl j, fun hnone ↦ absurd (hup.symm.trans hnone) Bool.false_ne_true⟩
    | true =>
      have hlt := h.lt_ticks ht.woken hmissing hup
      have hclock : t.now + pollQuantum.toNat * (j + 1) < clockLimit :=
        Nat.lt_of_le_of_lt (Nat.add_le_add_left (Nat.mul_le_mul_left _ hlt) t.now) ht.clock
      obtain ⟨n, rfl⟩ : ∃ n', n = n' + 1 := ⟨n - 1, by omega⟩
      obtain ⟨y, hy, hspin⟩ := h.exists_spin ht.solvent hclock v n
      have hturn := returns_pollTurn_of_down budget elapsed hreported hroom hup hspin
      split at hturn
      · refine ⟨∅, n, j + 1, y, .loop_stop hdescends hturn, ?_, EventMask.empty_subset _, hlt,
          by omega, Nat.le_succ j, fun _ ↦ Nat.lt_succ_self j⟩
        rwa [EventMask.union_empty]
      · obtain ⟨seen, n', j', z, hloop, hz, hseen, hj', hcalls, hle, -⟩ :=
          ih _ (by omega) (n := n) hy hlt (by omega) (addSaturating elapsed 1) rfl
        exact ⟨seen, n', j', z, .loop_again hdescends hturn hloop, hz, hseen, hj', by omega,
          by omega, fun _ ↦ by omega⟩

/-! ## Round after round -/

/-- A round of a wait without a budget is a poll of one slice. -/
theorem returns_pollRound {plan : WaitPlan} (hbudget : plan.budget.isUnbounded = true)
    {c : Charged} {seen : EventMask} {n' : Nat} {u u' : Tile}
    (hpoll : Tile.platform.Returns (poll (c.tally.missing required) plan.slice) v n u seen n' u') :
    Tile.platform.Returns (pollRound required plan c) v n u
      (c.verdict required plan ⟨c.tally.missing required, some plan.slice, seen⟩) n' u' := by
  rw [pollRound, Budget.round?, if_pos hbudget]
  refine hpoll.bind ((returns_reportRound _).bind ?_)
  rw [Charged.verdict]
  dsimp only
  split
  · exact Platform.returns_pure _
  · split
    · exact (Platform.returns_report _ _).bind (Platform.returns_pure _)
    · exact Platform.returns_pure _

/-- The rounds come to an end when nothing is missing, and no later than all is complete. -/
theorem Watch.exists_rounds {plan : WaitPlan} (hbudget : plan.budget.isUnbounded = true)
    {c : Charged} (h : Watch t required c.tally.total j x) (ht : t.Pollable required)
    (hmissing : ¬ required ⊆ c.tally.total) (hj : j ≤ t.ticks required)
    (hn : t.ticks required ≤ n + j) :
    ∃ tally n' j' y, Tile.platform.Returns
        (Driver.loop (fun c ↦ (c.tally.missing required).size) (pollRound required plan) c) v n
        (t.afterSleep x) (.ok (), tally) n' (t.afterSleep y) ∧
      Watch t required tally.total j' y ∧ required ⊆ tally.total ∧ j' ≤ t.ticks required ∧
      n' + j' = n + j := by
  -- by induction on the delays that are left and the lines that are missing
  induction hk : t.ticks required - j + (c.tally.missing required).size using Nat.strongRecOn
    generalizing c x j n with
  | _ k ih =>
    obtain ⟨seen, n₁, j₁, y, hpoll, hy, hseen, hj₁, hcalls, hle, hnone⟩ :=
      h.exists_poll (v := v) ht hmissing hj hn plan.slice 0
    have hround := returns_pollRound hbudget hpoll
    have hdescends := descends_pollRound required plan
    obtain ⟨hall, hturn⟩ | ⟨hmore, ⟨hexhausted, -⟩ | ⟨-, hturn⟩⟩ :=
      c.verdict_cases required plan ⟨c.tally.missing required, some plan.slice, seen⟩
    · rw [hturn] at hround
      exact ⟨_, n₁, j₁, y, .loop_stop hdescends hround, hy, hall, hj₁, hcalls⟩
    · exact absurd (Budget.isUnbounded_iff.1 hbudget) (Budget.isExhausted_iff.1 hexhausted).1
    · rw [hturn] at hround
      have hlt : t.ticks required - j₁ + (c.tally.missing required \ seen).size < k := by
        cases hs : seen.isEmpty with
        | true =>
          have hsize :=
            EventMask.size_le_size (EventMask.sdiff_subset (c.tally.missing required) seen)
          have hticks := hnone hs
          omega
        | false =>
          have hsize : _ < (c.tally.missing required).size := EventMask.size_sdiff_lt hseen hs
          omega
      rw [← Tally.missing_add c.tally ⟨c.tally.missing required, some plan.slice, seen⟩] at hlt
      obtain ⟨tally, n', j', z, hloop, hz, hall, hj', hcalls'⟩ :=
        ih _ hlt (c := ⟨_, addSaturating c.elapsed plan.slice.rounds⟩) (n := n₁) hy hmore hj₁
          (by omega) rfl
      exact ⟨tally, n', j', z, .loop_again hdescends hround hloop, hz, hall, hj', by omega⟩

end Sleep

namespace EventUnit

/-- **A wait that polls for all devices without a budget, on a simulated tile, to the end.**  It
returns with all of the lines, at the first look by which they have come up. -/
theorem returns_waitAll_awake {t : Tile} {plan : WaitPlan} (hmode : plan.mode = .polling)
    (hbudget : plan.budget.isUnbounded = true) (hrequired : plan.required.isEmpty = false)
    (ht : t.Pollable plan.required) (v : Verbosity) {n : Nat} (hn : t.ticks plan.required ≤ n) :
    ∃ t', Tile.platform.Returns (waitAll plan) v n t (.ok plan.required)
        (n - t.ticks plan.required) t' ∧
      t'.now = t.now + pollQuantum.toNat * t.ticks plan.required := by
  have hmissing : ¬ plan.required ⊆ Tally.empty.total := fun hall ↦ by
    rw [← EventMask.sdiff_isEmpty_iff] at hall
    simp [Tally.empty, hrequired] at hall
  have hempty : Sleep.Watch t plan.required Tally.empty.total 0 (Sleep.start t) :=
    .start_empty t plan.required
  obtain ⟨tally, n', j, x, hrounds, hx, hall, hj, hcalls⟩ :=
    hempty.exists_rounds (v := v) (c := ⟨.empty, 0⟩) hbudget ht hmissing (Nat.zero_le _) hn
  obtain rfl : j = t.ticks plan.required := Nat.le_antisymm hj (hx.ticks_le hall)
  obtain rfl : n' = n - t.ticks plan.required := by omega
  obtain htotal : tally.total = plan.required := EventMask.subset_antisymm hx.within hall
  rw [Sleep.afterSleep_start] at hrounds
  have hwait : Tile.platform.Returns (waitAll plan) v n t (.ok tally.total)
      (n - t.ticks plan.required) (t.afterSleep x) := by
    rw [waitAll_eq_polling hmode hrequired]
    exact hrounds.bind ((Platform.returns_report _ _).bind (Platform.returns_pure _))
  rw [htotal] at hwait
  exact ⟨t.afterSleep x, hwait, hx.now⟩

end EventUnit
end TileEvents
