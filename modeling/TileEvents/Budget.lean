import TileEvents.Text.Record

/-!
# Polling budgets

A wait that polls is bounded by a number of rounds rather than by time: one round is one look at
the event buffer and one fixed delay of `pollQuantum` cycles.  A `Budget` is such a number, and
the budget 0 stands for no bound at all.

Rounds are counted in a 32-bit word that stays at its largest value once it gets there
(`addSaturating`), so a wait without a bound can go on for ever without its count coming round to
a small number again.

A wait for several lines spends its budget in slices.  `Budget.round?` is the length of the next
slice: the full slice, or what is left if that is less.  It is `none` only when more was counted
than the budget holds, and never 0 while something is left and the slice is not 0, so no slice turns
into an unbounded one (`isUnbounded_of_round?`).
-/

set_option autoImplicit false

namespace TileEvents

/-- Cycles between two looks at the event buffer while polling. -/
def pollQuantum : UInt32 := 10

/-- The sum, or the largest word where the sum does not fit. -/
def addSaturating (a b : UInt32) : UInt32 := UInt32.ofNat (min (a.toNat + b.toNat) 0xFFFFFFFF)

theorem toNat_addSaturating (a b : UInt32) :
    (addSaturating a b).toNat = min (a.toNat + b.toNat) 0xFFFFFFFF := by
  rw [addSaturating, UInt32.toNat_ofNat']
  exact Nat.mod_eq_of_lt (by omega)

/-- How many rounds a polling wait may take.  No bound if 0. -/
structure Budget where
  rounds : UInt32
deriving DecidableEq

namespace Budget

/-- The budget that never runs out. -/
def unbounded : Budget := ⟨0⟩

/-- As many rounds as cover a number of cycles. -/
def ofCycles (cycles : UInt32) : Budget :=
  ⟨UInt32.ofNat ((cycles.toNat + (pollQuantum.toNat - 1)) / pollQuantum.toNat)⟩

/-- One million cycles: what a wait gets that names no budget. -/
def default : Budget := ofCycles 1000000

/-- One hundred cycles: the slice of a wait that names none. -/
def defaultSlice : Budget := ofCycles 100

instance : Inhabited Budget := ⟨default⟩

def isUnbounded (b : Budget) : Bool := b.rounds == 0

/-- The budget has a bound and `elapsed` rounds reach it. -/
def isExhausted (b : Budget) (elapsed : UInt32) : Bool :=
  b.rounds != 0 && decide (b.rounds ≤ elapsed)

/-- The length of the next slice when `elapsed` rounds of budget `b` are spent.  `none` if the
budget is overspent. -/
def round? (b slice : Budget) (elapsed : UInt32) : Option Budget :=
  if b.isUnbounded then some slice
  else if elapsed ≤ b.rounds then some ⟨min slice.rounds (b.rounds - elapsed)⟩
  else none

def describe (b : Budget) : String := Text.tagged "Budget" (toString b.rounds.toNat)

/-! ## When a budget runs out -/

theorem isUnbounded_iff {b : Budget} : b.isUnbounded = true ↔ b.rounds.toNat = 0 := by
  rw [isUnbounded, beq_iff_eq, ← UInt32.toNat_inj]
  rfl

theorem isExhausted_iff {b : Budget} {elapsed : UInt32} :
    b.isExhausted elapsed = true ↔ b.rounds.toNat ≠ 0 ∧ b.rounds.toNat ≤ elapsed.toNat := by
  rw [isExhausted, Bool.and_eq_true, bne_iff_ne, decide_eq_true_eq, UInt32.le_iff_toNat_le, ne_eq,
    ← UInt32.toNat_inj]
  rfl

theorem isUnbounded_eq_false_iff {b : Budget} : b.isUnbounded = false ↔ 0 < b.rounds.toNat := by
  rw [Bool.eq_false_iff, ne_eq, isUnbounded_iff, Nat.pos_iff_ne_zero]

/-- The count of rounds does not have to be read as a word while there is budget left. -/
theorem isExhausted_addSaturating_iff {b : Budget} {elapsed more : UInt32} :
    b.isExhausted (addSaturating elapsed more) = true ↔
      b.rounds.toNat ≠ 0 ∧ b.rounds.toNat ≤ elapsed.toNat + more.toNat := by
  have hmax := b.rounds.toNat_lt
  rw [isExhausted_iff, toNat_addSaturating]
  omega

/-- A count that does not reach the budget has not saturated. -/
theorem toNat_addSaturating_of_not_exhausted {b : Budget} {elapsed more : UInt32}
    (hbounded : b.isUnbounded = false)
    (h : b.isExhausted (addSaturating elapsed more) = false) :
    (addSaturating elapsed more).toNat = elapsed.toNat + more.toNat := by
  have hmax := b.rounds.toNat_lt
  rw [isUnbounded_eq_false_iff] at hbounded
  rw [Bool.eq_false_iff, ne_eq, isExhausted_addSaturating_iff] at h
  rw [toNat_addSaturating]
  omega

/-- While rounds are left the next slice is a full one, or what is left. -/
theorem exists_round? {b : Budget} (slice : Budget) {elapsed : UInt32}
    (h : elapsed.toNat < b.rounds.toNat) :
    ∃ r, b.round? slice elapsed = some r ∧
      r.rounds.toNat = min slice.rounds.toNat (b.rounds.toNat - elapsed.toNat) := by
  have hbounded : b.isUnbounded = false := isUnbounded_eq_false_iff.2 (by omega)
  have hle : elapsed ≤ b.rounds := UInt32.le_iff_toNat_le.2 (by omega)
  refine ⟨⟨min slice.rounds (b.rounds - elapsed)⟩, ?_, ?_⟩
  · rw [round?, if_neg (Bool.eq_false_iff.1 hbounded), if_pos hle]
  · have hsub := UInt32.toNat_sub_of_le _ _ hle
    simp only [Min.min, UInt32.le_iff_toNat_le, hsub]
    split
    · rfl
    · exact hsub

/-- **While rounds are left no slice turns into an unbounded one.** -/
theorem isUnbounded_of_round? {b slice r : Budget} {elapsed : UInt32}
    (hslice : slice.isUnbounded = false) (h : elapsed.toNat < b.rounds.toNat)
    (hround : b.round? slice elapsed = some r) : r.isUnbounded = false := by
  obtain ⟨r', hround', hr⟩ := exists_round? slice h
  obtain rfl := Option.some.inj (hround.symm.trans hround')
  rw [isUnbounded_eq_false_iff] at hslice ⊢
  omega

end Budget
end TileEvents
