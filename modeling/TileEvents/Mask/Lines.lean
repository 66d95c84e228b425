import TileEvents.Mask.Size
import TileEvents.Text.Hex

/-!
# Reading a mask back

A mask is one word, but what a reader wants are the positions in it, lowest first, and the lines
wired to them.  `positions` visits the members one after the other: it looks for the lowest
member, then for the lowest one above that, and so on until none is left.  That this meets every
member exactly once is `positions_eq_filter`; everything else about the order and the number of
visits follows from it.

`lines` keeps the positions with a line, and `describe` is the text of a mask: its word in eight
hexadecimal digits, then the labels of its lines.
-/

set_option autoImplicit false

namespace TileEvents
namespace EventMask

/-- The lowest member at or above `i`. -/
def lowestFrom? (m : EventMask) (i : Nat) : Option Nat :=
  (List.range' i (32 - i)).find? (decide <| · ∈ m)

theorem lowestFrom?_eq_some {m : EventMask} {i p : Nat} (h : m.lowestFrom? i = some p) :
    i ≤ p ∧ p < 32 := by
  have hp := List.mem_range'_1.1 (List.mem_of_find?_eq_some h)
  omega

/-- The members at or above `i`, lowest first. -/
def positionsFrom (m : EventMask) (i : Nat) : List Nat :=
  match h : m.lowestFrom? i with
  | none => []
  | some p => p :: m.positionsFrom (p + 1)
termination_by 32 - i
decreasing_by
  have := lowestFrom?_eq_some h
  omega

/-- The members of a mask, lowest first. -/
def positions (m : EventMask) : List Nat := m.positionsFrom 0

/-- The lines of a mask, lowest first.  Positions without a line are passed over. -/
def lines (m : EventMask) : List Line := m.positions.filterMap Line.ofPosition?

/-- The text of a mask: its word, and the labels of its lines. -/
def describe (m : EventMask) : String :=
  let labels := m.lines.map Line.label
  "EventMask(" ++ Text.hexFixed 8 m.bits.toNat ++
    (if labels.isEmpty then "" else " " ++ "|".intercalate labels) ++ ")"

/-! ## The visit meets every member once -/

theorem lowestFrom?_of_mem {m : EventMask} {i : Nat} (h : i ∈ m) : m.lowestFrom? i = some i := by
  obtain ⟨k, hk⟩ : ∃ k, 32 - i = k + 1 := ⟨31 - i, by have := lt_of_mem h; omega⟩
  simp [lowestFrom?, hk, List.range'_succ, h]

theorem lowestFrom?_of_not_mem {m : EventMask} {i : Nat} (h : ¬ i ∈ m) :
    m.lowestFrom? i = m.lowestFrom? (i + 1) := by
  rcases Nat.lt_or_ge i 32 with hi | hi
  · have hk : 32 - i = (32 - (i + 1)) + 1 := by omega
    rw [lowestFrom?, lowestFrom?, hk, List.range'_succ, List.find?_cons_of_neg (by simpa using h)]
  · rw [lowestFrom?, lowestFrom?, Nat.sub_eq_zero_of_le hi, Nat.sub_eq_zero_of_le (by omega)]
    rfl

theorem positionsFrom_eq (m : EventMask) (i : Nat) :
    m.positionsFrom i =
      match m.lowestFrom? i with
      | none => []
      | some p => p :: m.positionsFrom (p + 1) := by
  rw [positionsFrom]
  split <;> simp [*]

theorem positionsFrom_eq_filter (m : EventMask) (k i : Nat) (hk : 32 - i = k) :
    m.positionsFrom i = (List.range' i k).filter (decide <| · ∈ m) := by
  induction k generalizing i with
  | zero =>
    rw [positionsFrom_eq, lowestFrom?, hk]
    rfl
  | succ k ih =>
    rw [List.range'_succ]
    by_cases h : i ∈ m
    · rw [positionsFrom_eq, lowestFrom?_of_mem h, List.filter_cons_of_pos (by simpa using h),
        ← ih (i + 1) (by omega)]
    · rw [positionsFrom_eq, lowestFrom?_of_not_mem h, ← positionsFrom_eq,
        List.filter_cons_of_neg (by simpa using h), ← ih (i + 1) (by omega)]

/-- **The visit keeps, of all positions in order, the members.** -/
theorem positions_eq_filter (m : EventMask) :
    m.positions = (List.range 32).filter (decide <| · ∈ m) := by
  rw [positions, positionsFrom_eq_filter m 32 0 rfl, List.range_eq_range']

@[simp] theorem mem_positions {m : EventMask} {i : Nat} : i ∈ m.positions ↔ i ∈ m := by
  rw [positions_eq_filter, List.mem_filter, List.mem_range]
  exact ⟨fun h ↦ by simpa using h.2, fun h ↦ ⟨lt_of_mem h, by simpa using h⟩⟩

@[simp] theorem length_positions (m : EventMask) : m.positions.length = m.size := by
  rw [positions_eq_filter, size_eq_countP, List.countP_eq_length_filter]

theorem mem_lines {m : EventMask} {l : Line} : l ∈ m.lines ↔ l.position ∈ m := by
  rw [lines, List.mem_filterMap]
  constructor
  · rintro ⟨i, hi, hl⟩
    rw [Line.ofPosition?_eq_some_iff.1 hl]
    exact mem_positions.1 hi
  · exact fun h ↦ ⟨l.position, mem_positions.2 h, Line.ofPosition?_position l⟩

end EventMask

end TileEvents
