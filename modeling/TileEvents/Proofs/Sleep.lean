import TileEvents.EventUnit.WaitAll
import TileEvents.Proofs.Firing
import TileEvents.Proofs.Returns
import TileEvents.Tile.Hardware

/-!
# What a tile goes through during a wait for all devices

On a simulated tile it can be told beforehand when all lines of a wait will have come up: the last
of those that are down comes up at `Tile.completion`.

`Sleep` is what a tile has been through at a point of such a wait, however the wait blocks: which
entries of the schedule have fired, and what was taken down.  The lines that are up can be told from
that, but for those that were taken (`Sleep.Kept`).
-/

set_option autoImplicit false

namespace TileEvents

namespace Tile

/-- The earliest time that a line comes up. -/
def edgeTime (t : Tile) (b : Nat) : Nat := (t.schedule.nextEdge? (.single b)).getD t.now

/-- The time when the last of the lines that are not up comes up. -/
def completion (t : Tile) (required : EventMask) : Nat :=
  (((List.range 32).filter fun b ↦ decide (b ∈ required \ t.buffer)).map t.edgeTime).foldl max t.now

theorem foldl_max_le_iff {l : List Nat} {a b : Nat} :
    l.foldl max a ≤ b ↔ a ≤ b ∧ ∀ x ∈ l, x ≤ b := by
  induction l generalizing a with
  | nil => simp
  | cons x l ih =>
    rw [List.foldl_cons, ih, Nat.max_le, and_assoc]
    simp

theorem completion_le_iff {t : Tile} {required : EventMask} {T : Nat} :
    t.completion required ≤ T ↔
      t.now ≤ T ∧ ∀ b, b ∈ required → ¬ b ∈ t.buffer → t.edgeTime b ≤ T := by
  rw [completion, foldl_max_le_iff]
  simp only [List.mem_map, List.mem_filter, List.mem_range, decide_eq_true_eq,
    EventMask.mem_sdiff]
  constructor
  · rintro ⟨hnow, h⟩
    exact ⟨hnow, fun b hb hb' ↦ h _ ⟨b, ⟨EventMask.lt_of_mem hb, hb, hb'⟩, rfl⟩⟩
  · rintro ⟨hnow, h⟩
    refine ⟨hnow, ?_⟩
    rintro _ ⟨b, ⟨-, hb, hb'⟩, rfl⟩
    exact h b hb hb'

theorem now_le_completion (t : Tile) (required : EventMask) : t.now ≤ t.completion required :=
  (completion_le_iff.1 (Nat.le_refl _)).1

theorem edgeTime_le_completion {t : Tile} {required : EventMask} {b : Nat} (hb : b ∈ required)
    (hdown : ¬ b ∈ t.buffer) : t.edgeTime b ≤ t.completion required :=
  (completion_le_iff.1 (Nat.le_refl _)).2 b hb hdown

/-- Nobody waits for lines that are up. -/
theorem completion_of_subset {t : Tile} {required : EventMask} (h : required ⊆ t.buffer) :
    t.completion required = t.now := by
  refine Nat.le_antisymm (completion_le_iff.2 ⟨Nat.le_refl _, fun b hb hdown ↦ ?_⟩)
    (t.now_le_completion required)
  exact absurd (EventMask.subset_iff.1 h b hb) hdown

/-- The time of an edge is that of the first entry that raises the line. -/
theorem edgeTime_spec {t : Tile} {b : Nat} {e : Entry} (he : e ∈ t.schedule)
    (hb : b ∈ e.stimulus.lines) :
    t.edgeTime b ≤ e.due ∧ ∃ e' ∈ t.schedule, b ∈ e'.stimulus.lines ∧ e'.due = t.edgeTime b := by
  have hmem : ∀ {e' : Entry}, e'.stimulus.lines.intersects (.single b) = true ↔
      b ∈ e'.stimulus.lines := by
    intro e'
    rw [EventMask.intersects_iff]
    simp only [EventMask.mem_single (EventMask.lt_of_mem hb), exists_eq_right]
  obtain ⟨due, hdue⟩ := Schedule.exists_nextEdge? he (hmem.2 hb)
  have htime : t.edgeTime b = due := by rw [edgeTime, hdue, Option.getD_some]
  obtain ⟨⟨e', he', hlines, hdue'⟩, hmin⟩ := Schedule.nextEdge?_eq_some_iff.1 hdue
  rw [htime]
  exact ⟨hmin e he (hmem.2 hb), e', he', hmem.1 hlines, hdue'⟩

/-- The lines are up or will all be up some time. -/
def Wakes (t : Tile) (required : EventMask) : Prop :=
  ∀ b, b ∈ required → b ∈ t.buffer ∨ ∃ e ∈ t.schedule, b ∈ e.stimulus.lines

/-- A wait for these lines can make do with the tile: they are reported and will all be up some
time, and no transfer or log gets in the way. -/
structure Able (t : Tile) (required : EventMask) : Prop where
  reported : required ⊆ t.mask
  solvent : t.Solvent
  room : t.clears.length + required.size < clearLogCapacity
  woken : t.Wakes required

end Tile

/-! ## Operations that a tile answers at once -/

namespace EventUnit

variable {v : Verbosity} {n : Nat} {t : Tile}

theorem returns_observe (m : EventMask) (t : Tile) :
    Tile.platform.Returns (observe m) v n t (t.reported ∩ m) n t :=
  ((Platform.returns_read rfl).bind (Platform.returns_pure _)).bind (Platform.returns_pure _)

theorem returns_irqEnabled (t : Tile) : Tile.platform.Returns irqEnabled v n t t.irqMask n t :=
  (Platform.returns_read rfl).bind (Platform.returns_pure _)

theorem returns_enableIrq (m : EventMask) (t : Tile) :
    Tile.platform.Returns (enableIrq m) v n t () n { t with irqMask := t.irqMask ∪ m } :=
  Platform.returns_write_iff.2 ⟨rfl, rfl⟩

theorem returns_reportRound (r : Round) :
    Tile.platform.Returns (reportRound r) v n t () n t := by
  rw [reportRound]
  split
  · exact Platform.returns_pure _
  · exact Platform.returns_report _ _

end EventUnit

/-! ## What a tile goes through -/

/-- What a tile has been through since a wait began on it. -/
structure Sleep where
  now : Nat
  buffer : EventMask
  irqMask : EventMask
  /-- How often the hart was put to sleep. -/
  suspends : Nat
  /-- The entries that have fired. -/
  fired : Schedule
  rest : Schedule
  /-- What was taken down. -/
  clears : List EventMask

/-- The tile after all this. -/
def Tile.afterSleep (t : Tile) (x : Sleep) : Tile :=
  { t with
    now := x.now
    buffer := x.buffer
    irqMask := x.irqMask
    suspends := t.suspends + x.suspends
    schedule := x.rest
    transfers := t.retired x.fired
    clears := t.clears ++ x.clears }

namespace Sleep

/-- A tile that has not been through anything. -/
def start (t : Tile) : Sleep := ⟨t.now, t.buffer, t.irqMask, 0, [], t.schedule, []⟩

theorem afterSleep_start (t : Tile) : t.afterSleep (start t) = t := by
  rw [Tile.afterSleep, start]
  simp only [List.append_nil, Nat.add_zero]
  rfl

/-- Lines are taken down. -/
def clear (x : Sleep) (m : EventMask) : Sleep :=
  { x with buffer := x.buffer \ m, clears := x.clears ++ [m] }

/-- A look at some lines, and those that are up are taken down. -/
def take (x : Sleep) (m : EventMask) : Sleep :=
  if (x.buffer ∩ m).isEmpty then x else x.clear (x.buffer ∩ m)

@[simp] theorem take_suspends (x : Sleep) (m : EventMask) :
    (x.take m).suspends = x.suspends := by
  rw [take]
  split <;> rfl

@[simp] theorem take_now (x : Sleep) (m : EventMask) : (x.take m).now = x.now := by
  rw [take]
  split <;> rfl

@[simp] theorem take_fired (x : Sleep) (m : EventMask) : (x.take m).fired = x.fired := by
  rw [take]
  split <;> rfl

@[simp] theorem take_rest (x : Sleep) (m : EventMask) : (x.take m).rest = x.rest := by
  rw [take]
  split <;> rfl

/-- The clock moves on, and everything that is due then fires. -/
def advance (x : Sleep) (now : Nat) (rest : Schedule) : Sleep :=
  { x with
    now := now
    buffer := x.buffer ∪ (x.rest.dueBy now).lines
    suspends := x.suspends + 1
    fired := x.fired ++ x.rest.dueBy now
    rest := rest }

theorem afterSleep_advance (t : Tile) (x : Sleep) (now : Nat) (rest : Schedule) :
    t.afterSleep (x.advance now rest) =
      { t.afterSleep x with now := now, suspends := t.suspends + x.suspends + 1 }.afterFiring
        (x.rest.dueBy now) rest := by
  have hretired : t.retired (x.fired ++ x.rest.dueBy now) =
      (t.afterSleep x).retired (x.rest.dueBy now) := by
    funext c
    simp only [Tile.retired, Tile.afterSleep, Schedule.retirements_append, Nat.add_assoc]
  show { t with
    now := now
    buffer := x.buffer ∪ (x.rest.dueBy now).lines
    irqMask := x.irqMask
    suspends := t.suspends + x.suspends + 1
    schedule := rest
    transfers := t.retired (x.fired ++ x.rest.dueBy now)
    clears := t.clears ++ x.clears } = _
  rw [hretired]
  rfl

/-! ## What a look does to a tile -/

open EventUnit

variable {t : Tile} {x : Sleep} {m : EventMask} {v : Verbosity} {n : Nat}

/-- There is room to note one more write to the clearing register. -/
def HasRoom (t : Tile) (x : Sleep) : Prop := t.clears.length + x.clears.length < clearLogCapacity

theorem returns_clear (h : HasRoom t x) :
    Tile.platform.Returns (EventUnit.clear m) v n (t.afterSleep x) () n
      (t.afterSleep (x.clear m)) := by
  have hroom : (t.afterSleep x).clears.length < clearLogCapacity := by
    show (t.clears ++ x.clears).length < clearLogCapacity
    rw [List.length_append]
    exact h
  have hwrite : Tile.platform.write .eventUnit Register.bufferClear.offset m.bits
      (t.afterSleep x) = .ok (t.afterSleep (x.clear m)) := by
    show (if _ then _ else _) = _
    rw [if_pos hroom, Tile.afterSleep, Tile.afterSleep, clear, List.append_assoc]
  exact Platform.returns_write_iff.2 ⟨rfl, hwrite⟩

theorem returns_take (hm : m ⊆ t.mask) (h : HasRoom t x) :
    Tile.platform.Returns (EventUnit.take m) v n (t.afterSleep x) (x.buffer ∩ m) n
      (t.afterSleep (x.take m)) := by
  have hreported : x.buffer ∩ t.mask ∩ m = x.buffer ∩ m := by
    refine EventMask.ext_mem fun b ↦ ?_
    simp only [EventMask.mem_inter]
    exact ⟨fun hb ↦ ⟨hb.1.1, hb.2⟩, fun hb ↦ ⟨⟨hb.1, EventMask.subset_iff.1 hm b hb.2⟩, hb.2⟩⟩
  have hobserve : Tile.platform.Returns (observe m) v n (t.afterSleep x) (x.buffer ∩ m) n
      (t.afterSleep x) := hreported ▸ returns_observe m _
  refine hobserve.bind ?_
  rw [take]
  split
  · exact Platform.returns_pure _
  · exact (returns_clear h).bind (Platform.returns_pure _)

/-! ## What holds all the time -/

/-- What any wait for all of the lines keeps on a tile that was like `t` when it began, when it has
taken the lines of `total`. -/
structure Kept (t : Tile) (required total : EventMask) (x : Sleep) : Prop where
  within : total ⊆ required
  /-- Entries have fired or are left. -/
  perm : t.schedule.Perm (x.fired ++ x.rest)
  due : ∀ e ∈ x.fired, e.due ≤ x.now
  log : x.clears.length ≤ total.size
  /-- A line that was not taken is up if it was up or has come up. -/
  up : ∀ b, ¬ b ∈ total → (b ∈ x.buffer ↔ b ∈ t.buffer ∨ b ∈ x.fired.lines)
  seen : ∀ b, b ∈ total → b ∈ t.buffer ∨ b ∈ x.fired.lines

namespace Kept

variable {required total : EventMask}

theorem start_empty (t : Tile) (required : EventMask) : Kept t required ∅ (Sleep.start t) where
  within := EventMask.empty_subset required
  perm := .refl t.schedule
  due e he := absurd he List.not_mem_nil
  log := Nat.zero_le _
  up b _ := by simp [Sleep.start]
  seen b hb := absurd hb (EventMask.not_mem_empty b)

/-- The missing lines that are up are taken. -/
theorem take (h : Kept t required total x) :
    Kept t required (total ∪ (x.buffer ∩ (required \ total))) (x.take (required \ total)) := by
  rw [Sleep.take]
  split
  · next hdown =>
    rw [EventMask.isEmpty_iff.1 hdown, EventMask.union_empty]
    exact h
  · next hup =>
    have hnew : ∀ {b}, b ∈ x.buffer ∩ (required \ total) ↔
        b ∈ x.buffer ∧ b ∈ required ∧ ¬ b ∈ total := by
      simp only [EventMask.mem_inter, EventMask.mem_sdiff, implies_true]
    exact { h with
      within := EventMask.union_subset.2
        ⟨h.within, EventMask.subset_iff.2 fun b hb ↦ (hnew.1 hb).2.1⟩
      log := by
        have hlt : total.size < (total ∪ (x.buffer ∩ (required \ total))).size := by
          obtain ⟨b, hb⟩ := EventMask.isEmpty_eq_false_iff.1 (Bool.eq_false_iff.2 hup)
          exact EventMask.size_lt_size_union hb (hnew.1 hb).2.2
        have hlog := h.log
        show (x.clears ++ [_]).length ≤ _
        rw [List.length_append, List.length_singleton]
        omega
      up := by
        intro b hb
        rw [EventMask.mem_union, not_or] at hb
        exact (EventMask.mem_sdiff.trans (and_iff_left hb.2)).trans (h.up b hb.1)
      seen := by
        intro b hb
        rcases EventMask.mem_union.1 hb with hb | hb
        · exact h.seen b hb
        · obtain ⟨hup, -, hnot⟩ := hnew.1 hb
          exact (h.up b hnot).1 hup }

/-- The clock moves. -/
theorem advance (h : Kept t required total x) {now : Nat} {rest : Schedule} (hnow : x.now ≤ now)
    (hrest : rest.Perm (x.rest.dueAfter now)) : Kept t required total (x.advance now rest) where
  within := h.within
  perm := by
    have hperm := (x.rest.perm_due now).trans (hrest.symm.append_left _)
    show t.schedule.Perm (x.fired ++ x.rest.dueBy now ++ rest)
    rw [List.append_assoc]
    exact h.perm.trans (hperm.append_left x.fired)
  due := by
    intro e he
    rcases List.mem_append.1 he with he | he
    · exact Nat.le_trans (h.due e he) hnow
    · exact (Schedule.mem_dueBy.1 he).2
  log := h.log
  up b hb := by
    show b ∈ x.buffer ∪ (x.rest.dueBy now).lines ↔
      b ∈ t.buffer ∨ b ∈ (x.fired ++ x.rest.dueBy now).lines
    rw [Schedule.lines_append, EventMask.mem_union, EventMask.mem_union, h.up b hb, or_assoc]
  seen b hb := by
    show b ∈ t.buffer ∨ b ∈ (x.fired ++ x.rest.dueBy now).lines
    rw [Schedule.lines_append, EventMask.mem_union, ← or_assoc]
    exact .inl (h.seen b hb)

/-- There is room for one write for each line, and for one more. -/
theorem hasRoom (h : Kept t required total x)
    (hroom : t.clears.length + required.size < clearLogCapacity) : HasRoom t x := by
  have hlog := h.log
  have hsize := EventMask.size_le_size h.within
  rw [HasRoom]
  omega

end Kept

end Sleep
end TileEvents
