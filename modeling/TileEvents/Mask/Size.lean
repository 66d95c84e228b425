import TileEvents.Mask.Basic

/-!
# How many lines a mask holds

`size` counts the set bits of the word, which is the number of members (`size_eq_countP`).  What is
left after taking some members away has fewer (`size_sdiff_lt`); that is what makes a loop stop
which asks for fewer lines in every round.
-/

set_option autoImplicit false

namespace TileEvents
namespace EventMask

/-- How many positions are in the set. -/
def size (m : EventMask) : Nat := m.bits.toBitVec.cpop.toNat

/-- The number of members is the number of positions that pass the membership test. -/
theorem size_eq_countP (m : EventMask) : m.size = (List.range 32).countP (decide <| · ∈ m) := by
  have key : ∀ k, m.bits.toBitVec.cpopNatRec k 0 = (List.range k).countP (decide <| · ∈ m) := by
    intro k
    induction k with
    | zero => rfl
    | succ k ih =>
      rw [BitVec.cpopNatRec_succ, BitVec.cpopNatRec_add, ih, List.range_succ, List.countP_append]
      by_cases h : m.bits.toBitVec.getLsbD k = true <;> simp [mem_iff, h]
  rw [← key, size, BitVec.toNat_cpop]

theorem size_le (m : EventMask) : m.size ≤ 32 := by
  rw [size_eq_countP]
  exact Nat.le_trans List.countP_le_length (by simp)

theorem size_le_size {m n : EventMask} (h : m ⊆ n) : m.size ≤ n.size := by
  rw [size_eq_countP, size_eq_countP]
  exact List.countP_mono_left fun i _ hi ↦ by simpa using subset_iff.1 h i (by simpa using hi)

/-- The members of a set are those it shares with another one and the rest. -/
theorem size_inter_add_size_sdiff (m n : EventMask) : (m ∩ n).size + (m \ n).size = m.size := by
  rw [size_eq_countP, size_eq_countP, size_eq_countP]
  induction List.range 32 with
  | nil => rfl
  | cons i l ih =>
    simp only [List.countP_cons, mem_inter, mem_sdiff, decide_eq_true_eq]
    by_cases hm : i ∈ m <;> by_cases hn : i ∈ n <;> simp [hm, hn] <;> simp at ih <;> omega

theorem size_pos_iff {m : EventMask} : 0 < m.size ↔ m.isEmpty = false := by
  rw [size_eq_countP, List.countP_pos_iff, isEmpty_eq_false_iff]
  constructor
  · rintro ⟨i, -, hi⟩
    exact ⟨i, by simpa using hi⟩
  · rintro ⟨i, hi⟩
    exact ⟨i, List.mem_range.2 (lt_of_mem hi), by simpa using hi⟩

/-- **Taking members away leaves fewer.** -/
theorem size_sdiff_lt {m n : EventMask} (h : n ⊆ m) (hn : n.isEmpty = false) :
    (m \ n).size < m.size := by
  have hp := size_pos_iff.2 hn
  have hs := size_inter_add_size_sdiff m n
  rw [inter_eq_right h] at hs
  omega

/-- One more member makes a set larger. -/
theorem size_lt_size_union {m n : EventMask} {i : Nat} (hn : i ∈ n) (hm : ¬ i ∈ m) :
    m.size < (m ∪ n).size := by
  have hinter : (m ∪ n) ∩ m = m := inter_eq_right (subset_iff.2 fun j hj ↦ mem_union.2 (.inl hj))
  have hpos : 0 < ((m ∪ n) \ m).size :=
    size_pos_iff.2 (isEmpty_eq_false_iff.2 ⟨i, mem_sdiff.2 ⟨mem_union.2 (.inr hn), hm⟩⟩)
  have hs := size_inter_add_size_sdiff (m ∪ n) m
  rw [hinter] at hs
  omega

end EventMask
end TileEvents
