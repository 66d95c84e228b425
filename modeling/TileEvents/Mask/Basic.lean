import TileEvents.Line

/-!
# Sets of event lines

The event buffer is one 32-bit word, and so is everything that selects lines of it: what is
pending, what is enabled, what a wait asks for and what it got.  `EventMask` is such a word read
as a set of positions: `i ∈ m` says that bit `i` is set, and the word operations are the set
operations (`mem_union`, `mem_inter`, `mem_sdiff`, `mem_compl`, `subset_iff`).  Two masks with the
same members are equal (`ext_mem`), so facts about masks are proved one position at a time.
-/

set_option autoImplicit false

namespace TileEvents

/-- A set of positions of the 32-bit event buffer. -/
structure EventMask where
  bits : UInt32
deriving DecidableEq

namespace EventMask

instance : Membership Nat EventMask := ⟨fun m i ↦ m.bits.toBitVec.getLsbD i = true⟩

instance (i : Nat) (m : EventMask) : Decidable (i ∈ m) :=
  inferInstanceAs (Decidable (m.bits.toBitVec.getLsbD i = true))

instance : EmptyCollection EventMask := ⟨⟨0⟩⟩

instance : Inhabited EventMask := ⟨∅⟩

/-- Every position of the buffer. -/
def all : EventMask := ⟨0xFFFFFFFF⟩

/-- The set with one position in it. -/
def single (i : Nat) : EventMask := ⟨1 <<< UInt32.ofNat i⟩

instance : Union EventMask := ⟨fun m n ↦ ⟨m.bits ||| n.bits⟩⟩

instance : Inter EventMask := ⟨fun m n ↦ ⟨m.bits &&& n.bits⟩⟩

instance : SDiff EventMask := ⟨fun m n ↦ ⟨m.bits &&& ~~~n.bits⟩⟩

instance : Complement EventMask := ⟨fun m ↦ ⟨~~~m.bits⟩⟩

/-- Every position of `m` is one of `n`. -/
instance : HasSubset EventMask := ⟨fun m n ↦ n.bits &&& m.bits = m.bits⟩

instance (m n : EventMask) : Decidable (m ⊆ n) :=
  inferInstanceAs (Decidable (n.bits &&& m.bits = m.bits))

def isEmpty (m : EventMask) : Bool := m.bits == 0

/-- The two sets have a position in common. -/
def intersects (m n : EventMask) : Bool := m.bits &&& n.bits != 0

/-- The union of a list of sets. -/
def unions (ms : List EventMask) : EventMask := ms.foldl (· ∪ ·) ∅

/-! ## Membership -/

theorem mem_iff {m : EventMask} {i : Nat} : i ∈ m ↔ m.bits.toBitVec.getLsbD i = true := Iff.rfl

theorem lt_of_mem {m : EventMask} {i : Nat} (h : i ∈ m) : i < 32 := by
  rcases Nat.lt_or_ge i 32 with hi | hi
  · exact hi
  · rw [mem_iff, BitVec.getLsbD_of_ge _ _ hi] at h
    exact absurd h (by decide)

/-- **A mask is the set of its members.** -/
theorem ext_mem {m n : EventMask} (h : ∀ i, i ∈ m ↔ i ∈ n) : m = n := by
  rcases m with ⟨a⟩
  rcases n with ⟨b⟩
  refine congrArg EventMask.mk (UInt32.toBitVec_inj.1 (BitVec.eq_of_getLsbD_eq fun i _ ↦ ?_))
  exact Bool.eq_iff_iff.2 (h i)

@[simp] theorem bits_empty : (∅ : EventMask).bits = 0 := rfl

@[simp] theorem not_mem_empty (i : Nat) : ¬ i ∈ (∅ : EventMask) := by
  simp [mem_iff]

@[simp] theorem mem_all {i : Nat} : i ∈ all ↔ i < 32 := by
  refine ⟨lt_of_mem, fun h ↦ ?_⟩
  have key : ∀ i, i < 32 → i ∈ all := by decide
  exact key i h

@[simp] theorem mem_union {m n : EventMask} {i : Nat} : i ∈ m ∪ n ↔ i ∈ m ∨ i ∈ n := by
  show (m.bits ||| n.bits).toBitVec.getLsbD i = true ↔ _
  simp [mem_iff]

@[simp] theorem mem_inter {m n : EventMask} {i : Nat} : i ∈ m ∩ n ↔ i ∈ m ∧ i ∈ n := by
  show (m.bits &&& n.bits).toBitVec.getLsbD i = true ↔ _
  simp [mem_iff]

@[simp] theorem mem_compl {m : EventMask} {i : Nat} : i ∈ ~~~m ↔ i < 32 ∧ ¬ i ∈ m := by
  show (~~~m.bits).toBitVec.getLsbD i = true ↔ _
  simp [mem_iff]

@[simp] theorem mem_sdiff {m n : EventMask} {i : Nat} : i ∈ m \ n ↔ i ∈ m ∧ ¬ i ∈ n := by
  show (m.bits &&& ~~~n.bits).toBitVec.getLsbD i = true ↔ _
  simp only [UInt32.toBitVec_and, UInt32.toBitVec_not, BitVec.getLsbD_and, BitVec.getLsbD_not,
    Bool.and_eq_true, Bool.not_eq_true', decide_eq_true_eq, mem_iff]
  exact ⟨fun h ↦ ⟨h.1, by simp [h.2.2]⟩,
    fun h ↦ ⟨h.1, lt_of_mem (mem_iff.2 h.1), by simpa using h.2⟩⟩

theorem subset_iff {m n : EventMask} : m ⊆ n ↔ ∀ i, i ∈ m → i ∈ n := by
  have h : m ⊆ n ↔ n ∩ m = m := by
    constructor
    · intro h; exact congrArg EventMask.mk h
    · intro h; exact congrArg EventMask.bits h
  rw [h]
  constructor
  · intro e i hi
    rw [← e, mem_inter] at hi
    exact hi.1
  · intro hs
    refine ext_mem fun i ↦ ?_
    rw [mem_inter]
    exact ⟨And.right, fun hi ↦ ⟨hs i hi, hi⟩⟩

@[simp] theorem mem_single {i j : Nat} (hi : i < 32) : j ∈ single i ↔ j = i := by
  rcases Nat.lt_or_ge j 32 with hj | hj
  · have key : ∀ i, i < 32 → ∀ j, j < 32 → (j ∈ single i ↔ j = i) := by decide
    exact key i hi j hj
  · exact ⟨fun h ↦ absurd (lt_of_mem h) (by omega), fun h ↦ by omega⟩

theorem mem_foldl_union {ms : List EventMask} {m : EventMask} {i : Nat} :
    i ∈ ms.foldl (· ∪ ·) m ↔ i ∈ m ∨ ∃ n ∈ ms, i ∈ n := by
  induction ms generalizing m with
  | nil => simp
  | cons n ms ih => simp [ih, or_assoc]

theorem mem_unions {ms : List EventMask} {i : Nat} : i ∈ unions ms ↔ ∃ n ∈ ms, i ∈ n := by
  simp [unions, mem_foldl_union]

/-! ## Emptiness -/

theorem isEmpty_iff {m : EventMask} : m.isEmpty = true ↔ m = ∅ := by
  rw [isEmpty, beq_iff_eq]
  exact ⟨fun h ↦ congrArg EventMask.mk h, fun h ↦ congrArg EventMask.bits h⟩

theorem isEmpty_eq_false_iff {m : EventMask} : m.isEmpty = false ↔ ∃ i, i ∈ m := by
  constructor
  · intro h
    refine Classical.byContradiction fun hn ↦ ?_
    have hm : m = ∅ :=
      ext_mem fun i ↦ ⟨fun hi ↦ absurd ⟨i, hi⟩ hn, fun hi ↦ absurd hi (not_mem_empty i)⟩
    rw [isEmpty_iff.2 hm] at h
    exact absurd h (by decide)
  · rintro ⟨i, hi⟩
    refine Bool.eq_false_iff.2 fun h ↦ ?_
    rw [isEmpty_iff.1 h] at hi
    exact not_mem_empty i hi

theorem intersects_iff {m n : EventMask} : m.intersects n = true ↔ ∃ i, i ∈ m ∧ i ∈ n := by
  have h : m.intersects n = !(m ∩ n).isEmpty := rfl
  rw [h, Bool.not_eq_true', isEmpty_eq_false_iff]
  simp

/-! ## Subsets -/

theorem empty_subset (m : EventMask) : ∅ ⊆ m := subset_iff.2 fun i h ↦ absurd h (not_mem_empty i)

theorem subset_refl (m : EventMask) : m ⊆ m := subset_iff.2 fun _ h ↦ h

theorem subset_trans {m n k : EventMask} (h : m ⊆ n) (h' : n ⊆ k) : m ⊆ k :=
  subset_iff.2 fun i hi ↦ subset_iff.1 h' i (subset_iff.1 h i hi)

theorem subset_antisymm {m n : EventMask} (h : m ⊆ n) (h' : n ⊆ m) : m = n :=
  ext_mem fun i ↦ ⟨subset_iff.1 h i, subset_iff.1 h' i⟩

theorem inter_subset_right (m n : EventMask) : m ∩ n ⊆ n :=
  subset_iff.2 fun _ h ↦ (mem_inter.1 h).2

theorem subset_union_left (m n : EventMask) : m ⊆ m ∪ n :=
  subset_iff.2 fun _ h ↦ mem_union.2 (.inl h)

theorem subset_union_right (m n : EventMask) : n ⊆ m ∪ n :=
  subset_iff.2 fun _ h ↦ mem_union.2 (.inr h)

theorem sdiff_subset (m n : EventMask) : m \ n ⊆ m :=
  subset_iff.2 fun _ h ↦ (mem_sdiff.1 h).1

theorem sdiff_union (m n k : EventMask) : m \ (n ∪ k) = (m \ n) \ k := by
  refine ext_mem fun i ↦ ?_
  simp only [mem_sdiff, mem_union, not_or]
  exact and_assoc.symm

theorem inter_eq_right {m n : EventMask} (h : n ⊆ m) : m ∩ n = n :=
  ext_mem fun i ↦ by
    rw [mem_inter]
    exact ⟨And.right, fun hi ↦ ⟨subset_iff.1 h i hi, hi⟩⟩

@[simp] theorem empty_union (m : EventMask) : ∅ ∪ m = m := ext_mem fun i ↦ by simp

@[simp] theorem union_empty (m : EventMask) : m ∪ ∅ = m := ext_mem fun i ↦ by simp

@[simp] theorem sdiff_empty (m : EventMask) : m \ ∅ = m := ext_mem fun i ↦ by simp

theorem union_assoc (m n k : EventMask) : m ∪ n ∪ k = m ∪ (n ∪ k) :=
  ext_mem fun i ↦ by simp only [mem_union, or_assoc]

theorem inter_assoc (m n k : EventMask) : m ∩ n ∩ k = m ∩ (n ∩ k) :=
  ext_mem fun i ↦ by simp only [mem_inter, and_assoc]

theorem union_inter (m n k : EventMask) : (m ∪ n) ∩ k = m ∩ k ∪ n ∩ k :=
  ext_mem fun i ↦ by simp only [mem_inter, mem_union, or_and_right]

theorem union_eq_left {m n : EventMask} (h : n ⊆ m) : m ∪ n = m :=
  ext_mem fun i ↦ by
    rw [mem_union]
    exact ⟨fun hi ↦ hi.elim id (subset_iff.1 h i), .inl⟩

theorem union_subset {m n k : EventMask} : m ∪ n ⊆ k ↔ m ⊆ k ∧ n ⊆ k := by
  simp only [subset_iff, mem_union]
  exact ⟨fun h ↦ ⟨fun i hi ↦ h i (.inl hi), fun i hi ↦ h i (.inr hi)⟩,
    fun h i hi ↦ hi.elim (h.1 i) (h.2 i)⟩

theorem sdiff_isEmpty_iff {m n : EventMask} : (m \ n).isEmpty = true ↔ m ⊆ n := by
  rw [← Bool.not_eq_false, isEmpty_eq_false_iff, subset_iff]
  simp only [mem_sdiff, not_exists, not_and, Classical.not_not]

end EventMask

/-- The set of one line. -/
def Line.mask (l : Line) : EventMask := .single l.position

theorem Line.mem_mask {l : Line} {i : Nat} : i ∈ l.mask ↔ i = l.position :=
  EventMask.mem_single l.position_lt

end TileEvents
