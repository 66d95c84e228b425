import TileEvents.Proofs.Rounds
import TileEvents.Proofs.Sleep

/-!
# Waiting asleep for all devices

A wait that sleeps ends when the last of its lines comes up, and until then everything fires that is
due.

What the hart does in the meantime is not so regular.  It may be woken by a missing line, by one
that was taken already and comes up again, or by some other line that wakes it.  Several entries of
the schedule may fire at once, and only some of them matter.  `Sleep.Sound` holds at every point of
such a wait.  Each round either takes a line or fires an entry, so there are not many rounds.
-/

set_option autoImplicit false

namespace TileEvents

namespace Tile

/-- What fires until all of the lines have come up: nothing if they are up. -/
def fires (t : Tile) (required : EventMask) : Schedule :=
  if required ⊆ t.buffer then [] else t.schedule.dueBy (t.completion required)

/-- What does not fire until then. -/
def spares (t : Tile) (required : EventMask) : Schedule :=
  if required ⊆ t.buffer then t.schedule else t.schedule.dueAfter (t.completion required)

end Tile

namespace Sleep

open EventUnit

variable {t : Tile} {x : Sleep} {m : EventMask} {v : Verbosity} {n : Nat}

/-! ## What `suspend` does to a tile -/

/-- More lines wake the hart. -/
def wake (x : Sleep) (m : EventMask) : Sleep := { x with irqMask := x.irqMask ∪ m }

/-- What `suspend` does before it looks. -/
theorem returns_suspend_iff {seen : EventMask} {n' : Nat} {u : Tile} :
    Tile.platform.Returns (EventUnit.suspend m) v n (t.afterSleep x) seen n' u ↔
      Tile.platform.Returns (sleepFor m) v n (t.afterSleep (x.wake m)) seen n' u := by
  refine (Platform.Returns.bind_iff (returns_irqEnabled _)).trans ?_
  show Tile.platform.Returns (if ¬ m ⊆ x.irqMask then enableIrq m >>= fun _ ↦ sleepFor m
    else sleepFor m) v n (t.afterSleep x) seen n' u ↔ _
  split
  · exact Platform.Returns.bind_iff (returns_enableIrq m _)
  · next hm =>
    have hirq : x.irqMask ∪ m = x.irqMask := EventMask.union_eq_left (Classical.not_not.1 hm)
    rw [wake, hirq]

/-- Something is up already, and the hart does not sleep. -/
theorem returns_suspend_of_up (hm : m ⊆ t.mask) (hroom : HasRoom t x)
    (hup : (x.buffer ∩ m).isEmpty = false) :
    Tile.platform.Returns (EventUnit.suspend m) v n (t.afterSleep x) (x.buffer ∩ m) n
      (t.afterSleep ((x.wake m).take m)) := by
  refine returns_suspend_iff.2 ?_
  refine (returns_take (x := x.wake m) hm hroom).bind ?_
  show Tile.platform.Returns (ite ((x.buffer ∩ m).isEmpty = true) _ _) _ _ _ _ _ _
  rw [if_neg (Bool.eq_false_iff.1 hup)]
  exact Platform.returns_pure _

/-- Nothing is up, and the hart sleeps. -/
theorem returns_suspend_of_down {y : Sleep} (hm : m ⊆ t.mask) (hroom : HasRoom t x)
    (hdown : (x.buffer ∩ m).isEmpty = true)
    (hsleep : (t.afterSleep (x.wake m)).suspend = .ok (t.afterSleep y)) (hroom' : HasRoom t y) :
    Tile.platform.Returns (EventUnit.suspend m) v (n + 1) (t.afterSleep x) (y.buffer ∩ m) n
      (t.afterSleep (y.take m)) := by
  have htake : (x.wake m).take m = x.wake m := by
    rw [take]
    exact if_pos hdown
  refine returns_suspend_iff.2 ?_
  refine (returns_take (x := x.wake m) hm hroom).bind ?_
  show Tile.platform.Returns (ite ((x.buffer ∩ m).isEmpty = true) _ _) _ _ _ _ _ _
  rw [if_pos hdown, htake]
  refine (Platform.returns_suspend_iff.2 ⟨rfl, hsleep⟩).bind ((returns_take hm hroom').bind ?_)
  exact (Platform.returns_report _ _).bind (Platform.returns_pure _)

/-- A hart that has nothing to look at has slept, if it has come back. -/
theorem of_returns_suspend_of_down {seen : EventMask} {n' : Nat} {u : Tile} (hm : m ⊆ t.mask)
    (hroom : HasRoom t x) (hdown : (x.buffer ∩ m).isEmpty = true)
    (h : Tile.platform.Returns (EventUnit.suspend m) v n (t.afterSleep x) seen n' u) :
    1 ≤ n ∧ t.suspends + x.suspends + 1 < counterLimit := by
  have hlook := (Platform.Returns.bind_iff (returns_take (x := x.wake m) hm hroom)).1
    (returns_suspend_iff.1 h)
  rw [show (x.wake m).buffer ∩ m = x.buffer ∩ m from rfl, if_pos hdown] at hlook
  obtain ⟨_, n₁, s, hsleep, -⟩ := Platform.returns_bind_iff.1 hlook
  obtain ⟨rfl, hsuspend⟩ := Platform.returns_suspend_iff.1 hsleep
  have hcounter := Tile.suspends_lt_of_suspend hsuspend
  have hsuspends : ((x.wake m).take m).suspends = x.suspends := take_suspends _ m
  rw [Tile.afterSleep, hsuspends] at hcounter
  exact ⟨Nat.le_add_left 1 n₁, hcounter⟩

/-- A round with something missing is a sleep and a record of it. -/
theorem returns_suspendRound {required seen : EventMask} {tally : Tally} {n' : Nat} {u u' : Tile}
    (hmissing : ¬ required ⊆ tally.total)
    (h : Tile.platform.Returns (EventUnit.suspend (tally.missing required)) v n u seen n' u') :
    Tile.platform.Returns (suspendRound required tally) v n u
      (.again (tally.add ⟨tally.missing required, none, seen⟩)) n' u' := by
  rw [suspendRound, if_neg hmissing]
  exact h.bind ((returns_reportRound _).bind (Platform.returns_pure _))

/-! ## What holds all the time -/

/-- What a wait for all of the lines has brought a tile to that was like `t` when it began, when it
has taken the lines of `total`. -/
structure Sound (t : Tile) (required total : EventMask) (x : Sleep) : Prop
    extends Kept t required total x where
  /-- Nothing happens before the first sleep, -/
  awake : x.suspends = 0 → x.fired = [] ∧ x.now = t.now
  /-- and everything that is due has fired after it. -/
  slept : 0 < x.suspends → ¬ required ⊆ t.buffer ∧ ∀ e ∈ x.rest, x.now < e.due
  onward : t.now ≤ x.now
  bound : x.now ≤ t.completion required
  count : x.suspends ≤ x.fired.length
  waking : total ⊆ x.irqMask
  irq : x.irqMask ∪ required = t.irqMask ∪ required

namespace Sound

variable {required total : EventMask}

theorem start_empty (t : Tile) (required : EventMask) : Sound t required ∅ (Sleep.start t) :=
  { Kept.start_empty t required with
    awake := fun _ ↦ ⟨rfl, rfl⟩
    slept := fun h ↦ absurd h (Nat.lt_irrefl 0)
    onward := Nat.le_refl t.now
    bound := t.now_le_completion required
    count := Nat.le_refl 0
    waking := EventMask.empty_subset _
    irq := rfl }

/-- The missing lines are made to wake the hart. -/
theorem wake (h : Sound t required total x) : Sound t required total (x.wake (required \ total)) :=
  { h with
    waking := EventMask.subset_iff.2 fun b hb ↦
      EventMask.mem_union.2 (.inl (EventMask.subset_iff.1 h.waking b hb))
    irq := by
      have hirq := h.irq
      rw [← hirq]
      refine EventMask.ext_mem fun b ↦ ?_
      simp only [Sleep.wake, EventMask.mem_union, EventMask.mem_sdiff]
      by_cases hb : b ∈ required <;> simp [hb] }

/-- All required lines wake the hart then. -/
theorem required_subset_wake (h : Sound t required total x) :
    required ⊆ (x.wake (required \ total)).irqMask := by
  refine EventMask.subset_iff.2 fun b hb ↦ ?_
  rw [Sleep.wake, EventMask.mem_union, EventMask.mem_sdiff]
  by_cases hbt : b ∈ total
  · exact .inl (EventMask.subset_iff.1 h.waking b hbt)
  · exact .inr ⟨hb, hbt⟩

/-- The missing lines that are up are taken. -/
theorem take (h : Sound t required total x) (hirq : required ⊆ x.irqMask) :
    Sound t required (total ∪ (x.buffer ∩ (required \ total))) (x.take (required \ total)) := by
  have hkept := h.toKept.take
  have hwaking : total ∪ (x.buffer ∩ (required \ total)) ⊆ x.irqMask :=
    EventMask.subset_trans hkept.within hirq
  rw [Sleep.take] at hkept ⊢
  split at hkept
  · next hdown =>
    rw [if_pos hdown]
    exact { hkept, h with waking := hwaking }
  · next hup =>
    rw [if_neg hup]
    exact { hkept, h with waking := hwaking }

/-- The clock moves to a time when something is due. -/
theorem advance (h : Sound t required total x) (hdown : ¬ required ⊆ t.buffer) {now : Nat}
    {rest : Schedule} (hnow : x.now ≤ now) (hbound : now ≤ t.completion required)
    (hrest : rest.Perm (x.rest.dueAfter now)) (hdue : 0 < (x.rest.dueBy now).length) :
    Sound t required total (x.advance now rest) :=
  { h.toKept.advance hnow hrest with
    awake := fun hnone ↦ absurd hnone (Nat.succ_ne_zero _)
    slept := fun _ ↦ ⟨hdown, fun e he ↦ (Schedule.mem_dueAfter.1 (hrest.mem_iff.1 he)).2⟩
    onward := Nat.le_trans h.onward hnow
    bound := hbound
    count := by
      have hcount := h.count
      show x.suspends + 1 ≤ (x.fired ++ x.rest.dueBy now).length
      rw [List.length_append]
      omega
    waking := h.waking
    irq := h.irq }

end Sound
end Sleep

/-- The tile can see a wait for these lines through: they are reported and will all be up some time,
and no transfer, log or counter gets in the way. -/
structure Tile.Ready (t : Tile) (required : EventMask) : Prop extends t.Able required where
  counter : t.suspends + (t.fires required).length < counterLimit

namespace Sleep

open EventUnit

variable {t : Tile} {x : Sleep} {required total : EventMask}

/-- No more has fired than will have in the end. -/
theorem Sound.length_fired_le (h : Sound t required total x) :
    x.fired.length ≤ (t.fires required).length := by
  rcases Nat.eq_zero_or_pos x.suspends with hzero | hpos
  · rw [(h.awake hzero).1]
    exact Nat.zero_le _
  · have hperm := (h.perm.filter fun e ↦ decide (e.due ≤ t.completion required)).length_eq
    have hall : x.fired.filter (fun e ↦ decide (e.due ≤ t.completion required)) = x.fired := by
      refine List.filter_eq_self.2 fun e he ↦ ?_
      simpa using Nat.le_trans (h.due e he) h.bound
    rw [List.filter_append, List.length_append, hall] at hperm
    rw [Tile.fires, if_neg (h.slept hpos).1, Schedule.dueBy]
    omega

/-- A missing line that is not up will come up, and not after all is complete. -/
theorem Sound.exists_edge (h : Sound t required total x) (hwoken : t.Wakes required) {b : Nat}
    (hb : b ∈ required) (hnew : ¬ b ∈ total) (hdown : ¬ b ∈ x.buffer) :
    ¬ b ∈ t.buffer ∧
      ∃ e ∈ x.rest, b ∈ e.stimulus.lines ∧ e.due ≤ t.completion required := by
  rw [h.up b hnew, not_or] at hdown
  obtain ⟨hbuffer, hfired⟩ := hdown
  obtain ⟨e, he, hlines⟩ := (hwoken b hb).resolve_left hbuffer
  obtain ⟨-, e', he', hlines', hdue⟩ := Tile.edgeTime_spec he hlines
  have hrest : e' ∈ x.rest := by
    rcases List.mem_append.1 (h.perm.mem_iff.1 he') with hmem | hmem
    · exact absurd (Schedule.mem_lines.2 ⟨e', hmem, hlines'⟩) hfired
    · exact hmem
  refine ⟨hbuffer, e', hrest, hlines', ?_⟩
  rw [hdue]
  exact Tile.edgeTime_le_completion hb hbuffer

/-- While a line is missing something is left that will wake the hart, and not after all is
complete. -/
theorem Sound.exists_advance (h : Sound t required total x) (hwoken : t.Wakes required)
    (hirq : required ⊆ x.irqMask) (hmissing : ¬ required ⊆ total)
    (hdown : (x.buffer ∩ (required \ total)).isEmpty = true) :
    ∃ due, x.rest.nextEdge? x.irqMask = some due ∧
      ∀ rest, rest.Perm (x.rest.dueAfter (max x.now due)) →
        Sound t required total (x.advance (max x.now due) rest) ∧ rest.length < x.rest.length := by
  have hnone : ∀ b, b ∈ required → ¬ b ∈ total → ¬ b ∈ x.buffer := by
    intro b hb hnew hup
    have hmem : b ∈ x.buffer ∩ (required \ total) :=
      EventMask.mem_inter.2 ⟨hup, EventMask.mem_sdiff.2 ⟨hb, hnew⟩⟩
    rw [EventMask.isEmpty_iff.1 hdown] at hmem
    exact EventMask.not_mem_empty b hmem
  -- the sleep is no longer than until the first edge on a missing line
  rw [← EventMask.sdiff_isEmpty_iff, Bool.not_eq_true, EventMask.isEmpty_eq_false_iff] at hmissing
  obtain ⟨b, hb⟩ := hmissing
  obtain ⟨hb, hnew⟩ := EventMask.mem_sdiff.1 hb
  obtain ⟨hbuffer, e, he, hlines, hedue⟩ := h.exists_edge hwoken hb hnew (hnone b hb hnew)
  have hwakes : e.stimulus.lines.intersects x.irqMask = true :=
    EventMask.intersects_iff.2 ⟨b, hlines, EventMask.subset_iff.1 hirq b hb⟩
  obtain ⟨due, hnext⟩ := Schedule.exists_nextEdge? he hwakes
  obtain ⟨⟨e', he', -, hdue'⟩, hmin⟩ := Schedule.nextEdge?_eq_some_iff.1 hnext
  have hbound : max x.now due ≤ t.completion required :=
    Nat.max_le.2 ⟨h.bound, Nat.le_trans (hmin e he hwakes) hedue⟩
  have hpos : 0 < (x.rest.dueBy (max x.now due)).length := by
    refine List.length_pos_iff_exists_mem.2 ⟨e', Schedule.mem_dueBy.2 ⟨he', ?_⟩⟩
    rw [hdue']
    exact Nat.le_max_right _ _
  refine ⟨due, hnext, fun rest hrest ↦ ⟨?_, ?_⟩⟩
  · exact h.advance (fun hall ↦ hbuffer (EventMask.subset_iff.1 hall b hb)) (Nat.le_max_left _ _)
      hbound hrest hpos
  · have hlength := (x.rest.perm_due (max x.now due)).length_eq
    have hlater : rest.length = (x.rest.dueAfter (max x.now due)).length := hrest.length_eq
    rw [List.length_append] at hlength
    omega

/-- **The hart can be put to sleep while a line is missing**, if its sleeps can still be counted. -/
theorem Sound.exists_sleep (h : Sound t required total x) (ht : t.Able required)
    (hcounter : t.suspends + x.suspends + 1 < counterLimit)
    (hirq : required ⊆ x.irqMask) (hmissing : ¬ required ⊆ total)
    (hdown : (x.buffer ∩ (required \ total)).isEmpty = true) :
    ∃ now rest, Sound t required total (x.advance now rest) ∧
      (t.afterSleep x).suspend = .ok (t.afterSleep (x.advance now rest)) ∧
      rest.length < x.rest.length := by
  obtain ⟨due, hnext, hadvance⟩ := h.exists_advance ht.woken hirq hmissing hdown
  have hleft : (t.afterSleep x).Solvent := ht.solvent.afterFiring h.perm
  obtain ⟨rest, hrest, hsuspend⟩ := Tile.suspend_eq hleft hcounter hnext
  refine ⟨max x.now due, rest, (hadvance rest hrest).1, ?_, (hadvance rest hrest).2⟩
  rw [afterSleep_advance]
  exact hsuspend

/-- The sleeps of a wait on a tile that can see it through can be counted. -/
theorem Sound.suspends_lt (h : Sound t required total x) (ht : t.Ready required)
    (hirq : required ⊆ x.irqMask) (hmissing : ¬ required ⊆ total)
    (hdown : (x.buffer ∩ (required \ total)).isEmpty = true) :
    x.suspends < (t.fires required).length := by
  obtain ⟨due, -, hadvance⟩ := h.exists_advance ht.woken hirq hmissing hdown
  obtain ⟨hsound, -⟩ := hadvance _ (.refl _)
  exact Nat.le_trans hsound.count hsound.length_fired_le

/-! ## Round after round -/

variable {v : Verbosity} {n : Nat}

/-- **A round takes a line or fires an entry,** if the hart can sleep when it has to.  Either way
what holds all the time holds after it. -/
theorem Sound.exists_round {tally : Tally} (h : Sound t required tally.total x)
    (ht : t.Able required) (hmissing : ¬ required ⊆ tally.total)
    (hsleeps : (x.buffer ∩ tally.missing required).isEmpty = true →
      1 ≤ n ∧ t.suspends + x.suspends + 1 < counterLimit) :
    ∃ r n' y, Tile.platform.Returns (suspendRound required tally) v n (t.afterSleep x)
        (.again (tally.add r)) n' (t.afterSleep y) ∧
      Sound t required (tally.add r).total y ∧ n' + y.suspends = n + x.suspends ∧
      y.rest.length + ((tally.add r).missing required).size <
        x.rest.length + (tally.missing required).size := by
  have hreported : tally.missing required ⊆ t.mask :=
    EventMask.subset_trans (EventMask.sdiff_subset _ _) ht.reported
  have hroom := h.toKept.hasRoom ht.room
  have hirq := h.required_subset_wake
  cases hup : (x.buffer ∩ tally.missing required).isEmpty with
  | false =>
    refine ⟨⟨_, none, _⟩, n, _,
      returns_suspendRound hmissing (returns_suspend_of_up hreported hroom hup),
      h.wake.take hirq, ?_, ?_⟩
    · rw [take_suspends]
      rfl
    · have hlt := EventMask.size_sdiff_lt (EventMask.inter_subset_right _ _) hup
      rw [take_rest, Tally.missing_add]
      exact Nat.add_lt_add_left hlt x.rest.length
  | true =>
    obtain ⟨hcalls, hcounter⟩ := hsleeps hup
    obtain ⟨n, rfl⟩ : ∃ n', n = n' + 1 := ⟨n - 1, by omega⟩
    obtain ⟨now, rest, hsound, hsuspend, hrest⟩ :=
      h.wake.exists_sleep ht hcounter hirq hmissing hup
    refine ⟨⟨_, none, _⟩, n, _,
      returns_suspendRound hmissing (returns_suspend_of_down hreported hroom hup hsuspend
        (hsound.toKept.hasRoom ht.room)), hsound.take hirq, ?_, ?_⟩
    · rw [take_suspends]
      show n + (x.suspends + 1) = n + 1 + x.suspends
      omega
    · have hle := EventMask.size_le_size (EventMask.sdiff_subset (tally.missing required)
        (((x.wake (tally.missing required)).advance now rest).buffer ∩ tally.missing required))
      rw [take_rest, Tally.missing_add]
      exact Nat.add_lt_add_of_lt_of_le hrest hle

/-- The rounds come to an end, and nothing is missing then. -/
theorem Sound.exists_rounds {tally : Tally} (h : Sound t required tally.total x)
    (ht : t.Ready required) (hn : (t.fires required).length ≤ n + x.suspends) :
    ∃ tally' n' y, Tile.platform.Returns
        (Driver.loop (fun t ↦ (t.missing required).size) (suspendRound required) tally) v n
        (t.afterSleep x) tally' n' (t.afterSleep y) ∧
      Sound t required tally'.total y ∧ required ⊆ tally'.total ∧
      n' + y.suspends = n + x.suspends := by
  -- by induction on what may still happen: entries that fire and lines that are taken
  induction hμ : x.rest.length + (tally.missing required).size using Nat.strongRecOn
    generalizing tally x n with
  | _ μ ih =>
    by_cases hmissing : required ⊆ tally.total
    · have hstop : Tile.platform.Returns (suspendRound required tally) v n (t.afterSleep x)
          (.stop tally) n (t.afterSleep x) := by
        rw [suspendRound, if_pos hmissing]
        exact Platform.returns_pure _
      exact ⟨tally, n, x, .loop_stop (descends_suspendRound required) hstop, h, hmissing, rfl⟩
    · have hsleeps : (x.buffer ∩ tally.missing required).isEmpty = true →
          1 ≤ n ∧ t.suspends + x.suspends + 1 < counterLimit := by
        intro hdown
        have hsuspends : x.suspends < (t.fires required).length :=
          h.wake.suspends_lt ht h.required_subset_wake hmissing hdown
        have hcounter := ht.counter
        omega
      obtain ⟨r, n₁, y, hround, hsound, hcalls, hlt⟩ :=
        h.exists_round (v := v) ht.toAble hmissing hsleeps
      obtain ⟨tally', n', z, hloop, hz, hall, hcalls'⟩ :=
        ih _ (hμ ▸ hlt) (n := n₁) hsound (by omega) rfl
      exact ⟨tally', n', z, .loop_again (descends_suspendRound required) hround hloop, hz, hall,
        by omega⟩

/-! ## In the end -/

/-- **When nothing is missing, the clock stands where the last line came up.** -/
theorem Sound.now_eq (h : Sound t required total x) (hall : required ⊆ total) :
    x.now = t.completion required := by
  refine Nat.le_antisymm h.bound (Tile.completion_le_iff.2 ⟨h.onward, fun b hb hdown ↦ ?_⟩)
  obtain ⟨e, he, hlines⟩ :=
    Schedule.mem_lines.1 ((h.seen b (EventMask.subset_iff.1 hall b hb)).resolve_left hdown)
  have hmem : e ∈ t.schedule := h.perm.mem_iff.2 (List.mem_append_left _ he)
  exact Nat.le_trans (Tile.edgeTime_spec hmem hlines).1 (h.due e he)

/-- What has fired then is what was due by that time, or nothing. -/
theorem Sound.perm_fires (h : Sound t required total x) (hall : required ⊆ total) :
    x.fired.Perm (t.fires required) ∧ x.rest.Perm (t.spares required) := by
  rw [Tile.fires, Tile.spares, ← h.now_eq hall]
  by_cases hup : required ⊆ t.buffer
  · have hzero : x.suspends = 0 :=
      (Nat.eq_zero_or_pos _).resolve_right fun hpos ↦ (h.slept hpos).1 hup
    have hnone := (h.awake hzero).1
    have hperm := h.perm
    rw [hnone] at hperm
    rw [if_pos hup, if_pos hup, hnone]
    exact ⟨.refl _, hperm.symm⟩
  · have hpos : 0 < x.suspends := by
      refine (Nat.eq_zero_or_pos _).resolve_left fun hzero ↦ hup (EventMask.subset_iff.2 ?_)
      intro b hb
      have hseen := h.seen b (EventMask.subset_iff.1 hall b hb)
      rw [(h.awake hzero).1] at hseen
      exact hseen.resolve_right (EventMask.not_mem_empty b)
    obtain ⟨hby, hafter⟩ := Schedule.due_append h.due (h.slept hpos).2
    have hfires := h.perm.filter fun e ↦ decide (e.due ≤ x.now)
    have hspares := h.perm.filter fun e ↦ decide (x.now < e.due)
    rw [if_neg hup, if_neg hup]
    exact ⟨hby ▸ hfires.symm, hafter ▸ hspares.symm⟩

/-- The tile after the closing write to the clearing register. -/
theorem Sound.afterSleep_clear (h : Sound t required required x) :
    t.afterSleep (x.clear required) =
      { t with
        now := t.completion required
        buffer := (t.buffer ∪ (t.fires required).lines) \ required
        irqMask := t.irqMask ∪ required
        suspends := t.suspends + x.suspends
        schedule := x.rest
        transfers := t.retired (t.fires required)
        clears := t.clears ++ (x.clears ++ [required]) } := by
  have hall := EventMask.subset_refl required
  have hfires := (h.perm_fires hall).1
  have hretired : t.retired x.fired = t.retired (t.fires required) := by
    funext c
    simp only [Tile.retired, Schedule.retirements_perm hfires]
  have hbuffer : x.buffer \ required = (t.buffer ∪ (t.fires required).lines) \ required := by
    refine EventMask.ext_mem fun b ↦ ?_
    rw [EventMask.mem_sdiff, EventMask.mem_sdiff, EventMask.mem_union,
      ← Schedule.lines_perm hfires]
    exact and_congr_left (h.up b)
  have hirq : x.irqMask = t.irqMask ∪ required := by
    rw [← h.irq, EventMask.union_eq_left h.waking]
  rw [← hretired, ← hbuffer, ← hirq, ← h.now_eq hall]
  rfl

end Sleep

namespace EventUnit

/-- Each device has one done line. -/
theorem size_required_le (plan : WaitPlan) : plan.required.size ≤ 4 := by
  have key : ∀ a b c d : Bool, (DeviceSet.mk a b c d).doneMask.size ≤ 4 := by decide
  exact key _ _ _ _

/-- **A wait that sleeps for all devices, on a simulated tile, to the end.**

It returns with all of the lines.  If they are up when it begins then the clock stands still and
nothing fires.  Otherwise the clock ends at the time when the last of those that are down comes up,
exactly the entries that are due by then have fired, and the hart was not put to sleep more often
than that.  What is up in the end is what was up or has come up, without the lines. -/
theorem waitAll_asleep {t : Tile} {plan : WaitPlan} (v : Verbosity) (n : Nat)
    (hmode : plan.mode = .suspend) (hrequired : plan.required.isEmpty = false)
    (hreported : plan.required ⊆ t.mask)
    (hsolvent : ∀ c, t.schedule.retirements c ≤ (t.transfers c).issued - (t.transfers c).done)
    (hroom : t.clears.length + 5 ≤ clearLogCapacity)
    (hcounter : t.suspends + (t.fires plan.required).length < counterLimit)
    (hwoken : ∀ b, b ∈ plan.required → b ∈ t.buffer ∨ ∃ e ∈ t.schedule, b ∈ e.stimulus.lines)
    (hn : (t.fires plan.required).length ≤ n) :
    ∃ k rest log, k ≤ (t.fires plan.required).length ∧
      (plan.required ⊆ t.buffer → k = 0 ∧ t.completion plan.required = t.now) ∧
      rest.Perm (t.spares plan.required) ∧
      (Tile.platform.run ((waitAll plan).program v n) t).outcome =
        .returned (.ok plan.required, n - k) { t with
          now := t.completion plan.required
          buffer := (t.buffer ∪ (t.fires plan.required).lines) \ plan.required
          irqMask := t.irqMask ∪ plan.required
          suspends := t.suspends + k
          schedule := rest
          transfers := t.retired (t.fires plan.required)
          clears := t.clears ++ log } := by
  have hsize := size_required_le plan
  have ht : t.Ready plan.required := ⟨⟨hreported, hsolvent, by omega, hwoken⟩, hcounter⟩
  have hempty : Sleep.Sound t plan.required Tally.empty.total (Sleep.start t) :=
    .start_empty t plan.required
  obtain ⟨⟨rounds, total⟩, n', x, hrounds, hsound, hall, hcalls⟩ :=
    hempty.exists_rounds (v := v) ht hn
  obtain rfl : total = plan.required := EventMask.subset_antisymm hsound.within hall
  rw [Sleep.afterSleep_start] at hrounds
  have hwait : Tile.platform.Returns (waitAll plan) v n t (.ok plan.required) n'
      (t.afterSleep (x.clear plan.required)) := by
    rw [waitAll_eq_asleep hmode hrequired]
    exact hrounds.bind ((Sleep.returns_clear (hsound.toKept.hasRoom ht.room)).bind
      ((Platform.returns_report _ _).bind (Platform.returns_pure _)))
  have hk : x.suspends ≤ (t.fires plan.required).length :=
    Nat.le_trans hsound.count hsound.length_fired_le
  have hn' : n' = n - x.suspends := by
    have hstart : (Sleep.start t).suspends = 0 := rfl
    omega
  rw [hsound.afterSleep_clear, hn'] at hwait
  refine ⟨x.suspends, x.rest, x.clears ++ [plan.required], hk, fun hup ↦ ?_,
    (hsound.perm_fires hall).2, hwait⟩
  refine ⟨?_, Tile.completion_of_subset hup⟩
  rw [Tile.fires, if_pos hup] at hk
  exact Nat.le_zero.1 hk

/-- The accelerator is done twice before the data mover is, and a timer runs for longer. -/
def doneTwice : Tile :=
  { Tile.initial with
    mask := bothDone.required
    schedule := [⟨20, .edge Line.timer0.mask⟩, ⟨9, .retire (.first .l2ToL1)⟩,
      ⟨7, .edge Line.accDone.mask⟩, ⟨5, .edge Line.accDone.mask⟩]
    transfers := fun c ↦ if c = .first .l2ToL1 then ⟨1, 0⟩ else .none }

/-- The hart sleeps until 5, 7 and 9. -/
theorem waitAll_asleep_doneTwice :
    (doneTwice.fires bothDone.required).length = 3 ∧
    doneTwice.completion bothDone.required = 9 ∧
    ∃ k rest log, k ≤ 3 ∧ rest.Perm [⟨20, .edge Line.timer0.mask⟩] ∧
      (Tile.platform.run ((waitAll bothDone).program none 3) doneTwice).outcome =
        .returned (.ok bothDone.required, 3 - k) { doneTwice with
          now := 9
          buffer := ∅
          irqMask := bothDone.required
          suspends := k
          schedule := rest
          transfers := doneTwice.retired (doneTwice.fires bothDone.required)
          clears := log } := by
  have hsolvent : ∀ c, doneTwice.schedule.retirements c ≤
      (doneTwice.transfers c).issued - (doneTwice.transfers c).done := by
    have key : ∀ c ∈ Channel.all, doneTwice.schedule.retirements c ≤
        (doneTwice.transfers c).issued - (doneTwice.transfers c).done := by decide
    exact fun c ↦ key c c.mem_all
  have hwoken : ∀ b, b ∈ bothDone.required →
      b ∈ doneTwice.buffer ∨ ∃ e ∈ doneTwice.schedule, b ∈ e.stimulus.lines := by
    have key : ∀ b, b < 32 → b ∈ bothDone.required →
        b ∈ doneTwice.buffer ∨ ∃ e ∈ doneTwice.schedule, b ∈ e.stimulus.lines := by decide
    exact fun b hb ↦ key b (EventMask.lt_of_mem hb) hb
  have hfires : (doneTwice.fires bothDone.required).length = 3 := by decide
  have hnow : doneTwice.completion bothDone.required = 9 := by decide
  have hspares : doneTwice.spares bothDone.required = [⟨20, .edge Line.timer0.mask⟩] := by decide
  have hbuffer : (doneTwice.buffer ∪ (doneTwice.fires bothDone.required).lines) \
      bothDone.required = ∅ := by decide
  have hmode : bothDone.mode = .suspend := rfl
  obtain ⟨k, rest, log, hk, -, hrest, hrun⟩ := waitAll_asleep none 3 hmode rfl (by decide)
    hsolvent (by decide) (by decide) hwoken (by decide)
  have hirq : doneTwice.irqMask ∪ bothDone.required = bothDone.required := EventMask.empty_union _
  have hsuspends : doneTwice.suspends + k = k := Nat.zero_add k
  rw [hfires] at hk
  rw [hspares] at hrest
  rw [hnow, hbuffer, hirq, hsuspends] at hrun
  exact ⟨hfires, hnow, k, rest, log, hk, hrest, hrun⟩

end EventUnit
end TileEvents
