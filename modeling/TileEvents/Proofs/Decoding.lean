import Mathlib.Order.Bounds.Defs
import TileEvents.Mask.Groups
import TileEvents.Mask.Lines

/-!
# Reading a mask back loses nothing

A mask is read back as its positions, as its lines and as a text, and each of the three says all
there is to say: which positions are set, which lines of the mask have a meaning, and which mask it
was (`reading_lossless`).

Two parts of a reading are left open, and only what they promise is used.  A `Search` finds the
lowest member of a mask, and the lowest one above another; it is asked again and again until it
finds none, and that it ever does is something to prove (`Search.Visits`).  A `LineStore` takes one
line after the other and may refuse one if it is full; a line that is refused is dropped.  Whatever
they are, they come to `positions` and `lines` (`visits_iff`, `toList_keepAll`): a mask has no more
members than the store has room for.

The text has the word of the mask in front, in a fixed number of characters (`length_wordText`), so
the word can be read off, and what follows is split at the bars (`namesIn_describe`).
-/

set_option autoImplicit false

namespace TileEvents

namespace Line

/-- No two lines have the same label. -/
theorem label_inj {k l : Line} (h : k.label = l.label) : k = l := by
  have key : ∀ k ∈ all, ∀ l ∈ all, k.label = l.label → k = l := by decide
  exact key k (mem_all k) l (mem_all l) h

theorem bar_notMem_label (l : Line) : '|' ∉ l.label.toList := by
  have h : ∀ l ∈ all, '|' ∉ l.label.toList := by decide
  exact h l (mem_all l)

end Line

namespace EventMask

/-! ## Looking for members -/

/-- How the members of a mask are looked for. -/
structure Search where
  /-- Looks for the lowest member. -/
  first : EventMask → Option Nat
  /-- Looks for the lowest member above another. -/
  next : EventMask → Nat → Option Nat

namespace Search

/-- Both find what they look for, if there is any. -/
structure Finds (f : Search) : Prop where
  first (m : EventMask) (i : Nat) : f.first m = some i ↔ IsLeast {j | j ∈ m} i
  next {m : EventMask} {i : Nat} (h : i ∈ m) (j : Nat) :
    f.next m i = some j ↔ IsLeast {k | k ∈ m ∧ i < k} j

/-- What is visited from a found position on: that one, as a byte, and then what is visited from the
next one on, until none is found.  If that never happens, no list is what is visited. -/
inductive Visits (f : Search) (m : EventMask) : Option Nat → List Nat → Prop
  | none : f.Visits m none []
  | some {i : Nat} {is : List Nat} (h : f.Visits m (f.next m i) is) :
      f.Visits m (some i) (i % 256 :: is)

theorem visits_none_iff {f : Search} {m : EventMask} {is : List Nat} :
    f.Visits m .none is ↔ is = [] := by
  constructor
  · rintro ⟨⟩
    rfl
  · rintro rfl
    exact .none

theorem visits_some_iff {f : Search} {m : EventMask} {i : Nat} {is : List Nat} :
    f.Visits m (.some i) is ↔ ∃ rest, is = i % 256 :: rest ∧ f.Visits m (f.next m i) rest := by
  constructor
  · intro h
    cases h with
    | some h => exact ⟨_, rfl, h⟩
  · rintro ⟨rest, rfl, h⟩
    exact .some h

end Search

theorem lowestFrom?_eq_some_iff {m : EventMask} {i j : Nat} :
    m.lowestFrom? i = some j ↔ IsLeast {k | k ∈ m ∧ i ≤ k} j := by
  rw [lowestFrom?, List.find?_range'_eq_some, List.mem_range'_1]
  simp only [decide_eq_true_eq, Bool.not_eq_true', decide_eq_false_iff_not]
  constructor
  · rintro ⟨hj, ⟨hle, -⟩, hleast⟩
    exact ⟨⟨hj, hle⟩, fun k hk ↦ Nat.le_of_not_lt fun hlt ↦ hleast k hk.2 hlt hk.1⟩
  · rintro ⟨⟨hj, hle⟩, hleast⟩
    have hlt := lt_of_mem hj
    exact ⟨hj, by omega, fun k hk hkj hmem ↦ absurd (hleast ⟨hmem, hk⟩) (Nat.not_le.2 hkj)⟩

theorem lowestFrom?_zero_eq_some_iff {m : EventMask} {i : Nat} :
    m.lowestFrom? 0 = some i ↔ IsLeast {j | j ∈ m} i := by
  simp only [lowestFrom?_eq_some_iff, Nat.zero_le, and_true]

section Positions

variable {f : Search} {m : EventMask}

theorem Search.Finds.first_eq (hf : f.Finds) : f.first m = m.lowestFrom? 0 :=
  Option.ext fun i ↦ (hf.first m i).trans lowestFrom?_zero_eq_some_iff.symm

theorem Search.Finds.next_eq (hf : f.Finds) {i : Nat} (h : i ∈ m) :
    f.next m i = m.lowestFrom? (i + 1) :=
  Option.ext fun j ↦ (hf.next h j).trans lowestFrom?_eq_some_iff.symm

/-- The search goes on as `positionsFrom` does, from any position on. -/
theorem Search.Finds.visits_lowestFrom? (hf : f.Finds) (i : Nat) (is : List Nat) :
    f.Visits m (m.lowestFrom? i) is ↔ is = m.positionsFrom i := by
  induction i using positionsFrom.induct m generalizing is with
  | case1 i hnone => rw [positionsFrom_eq, hnone, Search.visits_none_iff]
  | case2 i p hsome ih =>
    -- the search promises something of `p` only because `p` is a member
    have hp : p ∈ m := (lowestFrom?_eq_some_iff.1 hsome).1.1
    have hbyte : p % 256 = p := Nat.mod_eq_of_lt (Nat.lt_trans (lt_of_mem hp) (by decide))
    rw [positionsFrom_eq, hsome, Search.visits_some_iff, hf.next_eq hp, hbyte]
    simp only [ih, exists_eq_right]

/-- **A search that finds what it looks for comes to an end, and has visited the positions of the
mask.** -/
theorem Search.Finds.visits_iff (hf : f.Finds) (is : List Nat) :
    f.Visits m (f.first m) is ↔ is = m.positions := by
  rw [hf.first_eq, hf.visits_lowestFrom?, positions]

theorem pairwise_positions (m : EventMask) : m.positions.Pairwise (· < ·) := by
  rw [positions_eq_filter]
  exact List.pairwise_lt_range.filter _

/-- Put together, the positions are the mask again. -/
theorem unions_positions (m : EventMask) : unions (m.positions.map single) = m := by
  refine ext_mem fun i ↦ ?_
  rw [mem_unions]
  constructor
  · rintro ⟨_, hn, hi⟩
    obtain ⟨j, hj, rfl⟩ := List.mem_map.1 hn
    rw [mem_positions] at hj
    rwa [(mem_single (lt_of_mem hj)).1 hi]
  · intro hi
    exact ⟨single i, List.mem_map_of_mem (mem_positions.2 hi), (mem_single (lt_of_mem hi)).2 rfl⟩

end Positions

/-! ## Keeping the lines -/

/-- A vector of lines, as far as it is used here. -/
structure LineStore (ν : Type) where
  empty : ν
  /-- The vector with one more line at its end, or none if it is full. -/
  push : ν → Line → Option ν
  toList : ν → List Line

namespace LineStore

variable {ν : Type} {s : LineStore ν} {capacity : Nat}

/-- The vector has room for so many lines. -/
structure Holds (s : LineStore ν) (capacity : Nat) : Prop where
  empty : s.toList s.empty = []
  push {v : ν} (h : (s.toList v).length < capacity) (l : Line) :
    ∃ w, s.push v l = some w ∧ s.toList w = s.toList v ++ [l]

/-- Adds the line at a position, if one is wired there.  If it is refused, it is dropped. -/
def keep (s : LineStore ν) (v : ν) (i : Nat) : ν :=
  match Line.ofPosition? i with
  | none => v
  | some l => (s.push v l).getD v

/-- Keeps the lines at some positions. -/
def keepAll (s : LineStore ν) (is : List Nat) : ν := is.foldl s.keep s.empty

theorem Holds.toList_foldl (hs : s.Holds capacity) (is : List Nat) (v : ν)
    (hroom : (s.toList v).length + is.length ≤ capacity) :
    s.toList (is.foldl s.keep v) = s.toList v ++ is.filterMap Line.ofPosition? := by
  induction is generalizing v with
  | nil => exact (List.append_nil _).symm
  | cons i is ih =>
    rw [List.length_cons] at hroom
    rw [List.foldl_cons, keep, List.filterMap_cons]
    cases Line.ofPosition? i with
    | none => exact ih v (by omega)
    | some l =>
      have hless : (s.toList v).length < capacity := by omega
      obtain ⟨w, hpush, hw⟩ := hs.push hless l
      have hlength : (s.toList w).length = (s.toList v).length + 1 := by
        rw [hw, List.length_append, List.length_singleton]
      dsimp only
      rw [hpush, Option.getD_some, ih w (by omega), hw, List.append_assoc, List.singleton_append]

/-- **No line is dropped** where there is room for as many as there are positions. -/
theorem Holds.toList_keepAll (hs : s.Holds 32) (m : EventMask) :
    s.toList (s.keepAll m.positions) = m.lines := by
  have hsize : m.positions.length ≤ 32 := m.length_positions ▸ m.size_le
  rw [keepAll, hs.toList_foldl _ _ (by rw [hs.empty]; simpa using hsize), hs.empty,
    List.nil_append, lines]

end LineStore

theorem pairwise_lines (m : EventMask) : m.lines.Pairwise (·.position < ·.position) := by
  refine m.pairwise_positions.filterMap _ fun i j hij k hk l hl ↦ ?_
  rw [Line.ofPosition?_eq_some_iff.1 hk, Line.ofPosition?_eq_some_iff.1 hl]
  exact hij

/-- The lines of a mask are what it has in common with all lines. -/
theorem ofLines_lines (m : EventMask) : ofLines m.lines = m ∩ ofLines Line.all := by
  refine ext_mem fun i ↦ ?_
  simp only [mem_inter, mem_ofLines, mem_lines]
  constructor
  · rintro ⟨l, hl, rfl⟩
    exact ⟨hl, l, Line.mem_all l, rfl⟩
  · rintro ⟨hi, l, -, rfl⟩
    exact ⟨l, hi, rfl⟩

/-! ## The text -/

/-- The part of the text with the word of the mask. -/
def wordText (m : EventMask) : String := "EventMask(" ++ Text.hexFixed 8 m.bits.toNat

/-- The names in the text of a mask: what stands between the word, which takes 20 characters, and the
last bracket, but for the blank in front, split at the bars. -/
def namesIn (text : String) : List String :=
  match (text.toList.drop 20).dropLast with
  | [] => []
  | _ :: names => (names.splitOn '|').map String.ofList

theorem length_wordText (m : EventMask) : m.wordText.toList.length = 20 := by
  simp [wordText, Text.hexFixed, Text.length_hexDigits]

theorem wordText_inj {m n : EventMask} (h : m.wordText.toList = n.wordText.toList) : m = n := by
  simp only [wordText, String.toList_append, List.append_cancel_left_eq, String.toList_inj] at h
  have hbits := Text.hexFixed_inj m.bits.toNat_lt n.bits.toNat_lt h
  exact congrArg EventMask.mk (UInt32.toNat_inj.1 hbits)

/-- What the text of a mask says after the word. -/
def namesText (m : EventMask) : List Char :=
  match m.lines.map Line.label with
  | [] => []
  | labels => ' ' :: ['|'].intercalate (labels.map String.toList)

theorem toList_describe (m : EventMask) :
    m.describe.toList = m.wordText.toList ++ (m.namesText ++ [')']) := by
  simp only [describe, wordText, namesText]
  cases m.lines with
  | nil => simp
  | cons l ls => simp

theorem describe_inj {m n : EventMask} (h : m.describe = n.describe) : m = n := by
  have hl := congrArg String.toList h
  rw [toList_describe, toList_describe] at hl
  exact wordText_inj (List.append_inj hl (by rw [length_wordText, length_wordText])).1

/-- **The names in the text of a mask are the labels of its lines.** -/
theorem namesIn_describe (m : EventMask) : namesIn m.describe = m.lines.map Line.label := by
  have hafter : (m.describe.toList.drop 20).dropLast = m.namesText := by
    rw [toList_describe, ← m.length_wordText, List.drop_left, List.dropLast_concat]
  rw [namesIn, hafter, namesText]
  cases hlabels : m.lines.map Line.label with
  | nil => rfl
  | cons label labels =>
    have hbar : ∀ text ∈ (label :: labels).map String.toList, '|' ∉ text := by
      intro text htext
      obtain ⟨_, hmem, rfl⟩ := List.mem_map.1 htext
      rw [← hlabels] at hmem
      obtain ⟨l, -, rfl⟩ := List.mem_map.1 hmem
      exact l.bar_notMem_label
    show (List.splitOn '|' (['|'].intercalate _)).map String.ofList = _
    rw [List.splitOn_intercalate '|' hbar (List.cons_ne_nil _ _), List.map_map]
    simp

/-! ## Every reading -/

/-- What the readings of a mask say of it. -/
structure Lossless {ν : Type} (f : Search) (s : LineStore ν) (m : EventMask) : Prop where
  /-- The search comes to an end, and in one way only. -/
  visits_iff (is : List Nat) : f.Visits m (f.first m) is ↔ is = m.positions
  mem_positions_iff (i : Nat) : i ∈ m.positions ↔ i ∈ m
  ascending : m.positions.Pairwise (· < ·)
  length_eq : m.positions.length = m.size
  unions_eq : unions (m.positions.map single) = m
  /-- No line is dropped. -/
  kept : s.toList (s.keepAll m.positions) = m.lines
  mem_lines_iff (l : Line) : l ∈ m.lines ↔ l.position ∈ m
  lines_ascending : m.lines.Pairwise (·.position < ·.position)
  ofLines_eq : ofLines m.lines = m ∩ ofLines Line.all
  /-- The text names these lines in this order, and no others. -/
  names_iff (ls : List Line) : namesIn m.describe = ls.map Line.label ↔ ls = m.lines
  describe_iff (n : EventMask) : n.describe = m.describe ↔ n = m

/-- **Reading a mask back loses nothing**, whatever mask it is.  A search that finds what it looks for
comes to an end and has visited the members of the mask, each once, the lowest first; a store with
room for as many lines as there are positions then holds the lines of the mask, in the same order;
and the text names them and is the text of no other mask. -/
theorem reading_lossless {ν : Type} {f : Search} {s : LineStore ν} (hf : f.Finds) (hs : s.Holds 32)
    (m : EventMask) : Lossless f s m where
  visits_iff := hf.visits_iff
  mem_positions_iff _ := mem_positions
  ascending := m.pairwise_positions
  length_eq := m.length_positions
  unions_eq := m.unions_positions
  kept := hs.toList_keepAll m
  mem_lines_iff _ := mem_lines
  lines_ascending := m.pairwise_lines
  ofLines_eq := m.ofLines_lines
  names_iff ls := by
    rw [namesIn_describe, List.map_inj_right fun _ _ ↦ Line.label_inj]
    exact eq_comm
  describe_iff n := ⟨describe_inj, fun h ↦ h ▸ rfl⟩

/-- Looks at one position after the other. -/
def inTurn : Search where
  first m := m.lowestFrom? 0
  next m i := m.lowestFrom? (i + 1)

theorem finds_inTurn : inTurn.Finds where
  first _ _ := lowestFrom?_zero_eq_some_iff
  next _ _ := lowestFrom?_eq_some_iff

/-- A list with room for 32 lines. -/
def boundedList : LineStore (List Line) where
  empty := []
  push v l := if v.length < 32 then some (v ++ [l]) else none
  toList v := v

theorem holds_boundedList : boundedList.Holds 32 where
  empty := rfl
  push h _ := ⟨_, if_pos h, rfl⟩

/-- Three lines, the highest position among them, and a position without a line. -/
def fourUp : EventMask := ⟨0x80000444⟩

/-- Four positions are visited, and three lines are kept and named. -/
theorem reading_lossless_fourUp :
    inTurn.Finds ∧ boundedList.Holds 32 ∧
      inTurn.Visits fourUp (inTurn.first fourUp) [2, 6, 10, 31] ∧
      boundedList.toList (boundedList.keepAll [2, 6, 10, 31]) =
        [.dma .l2ToL1 .done, .accDone, .dma .l1ToL2 .busy] ∧
      namesIn fourUp.describe = ["dma-dir0-done", "accelerator-done", "dma-dir1-busy"] := by
  have h := reading_lossless finds_inTurn holds_boundedList fourUp
  have hpositions : fourUp.positions = [2, 6, 10, 31] := by
    rw [positions_eq_filter]
    decide
  have hkept : boundedList.toList (boundedList.keepAll [2, 6, 10, 31]) =
      [.dma .l2ToL1 .done, .accDone, .dma .l1ToL2 .busy] := by decide
  have hlines : [.dma .l2ToL1 .done, .accDone, .dma .l1ToL2 .busy] = fourUp.lines := by
    rw [← hkept, ← hpositions, h.kept]
  refine ⟨finds_inTurn, holds_boundedList, (h.visits_iff _).2 hpositions.symm, hkept, ?_⟩
  exact (h.names_iff _).2 hlines

end EventMask
end TileEvents
