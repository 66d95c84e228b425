import TileEvents.Stimulus

/-!
# What is going to happen

A schedule is a list of stimuli, each with the cycle at which it is due.  The earliest due one
fires first; of several that are due at the same cycle, the one nearest the front of the list.  It
is taken out by moving the last entry into its place, which changes the order of the rest but
nothing else: `of_takeDue?` says that what is taken and what stays are the schedule.
-/

set_option autoImplicit false

namespace TileEvents

/-- A stimulus and the cycle at which it is due. -/
structure Entry where
  due : Nat
  stimulus : Stimulus
deriving DecidableEq

/-- What is going to happen, in no particular order. -/
abbrev Schedule := List Entry

/-- How many entries a schedule has room for. -/
def scheduleCapacity : Nat := 32

namespace Schedule

/-- The earliest cycle of a list of entries. -/
def earliest? (es : Schedule) : Option Nat := (es.map Entry.due).min?

/-- The earliest cycle at which a line of `m` goes up. -/
def nextEdge? (es : Schedule) (m : EventMask) : Option Nat :=
  earliest? (es.filter (·.stimulus.lines.intersects m))

/-- The earliest cycle at which something is due that is due by `now`. -/
def earliestBy? (es : Schedule) (now : Nat) : Option Nat :=
  earliest? (es.filter fun e ↦ decide (e.due ≤ now))

/-- The list without the element at an index; the last element takes its place. -/
def swapRemove {α : Type} (l : List α) (i : Nat) : List α :=
  match l.getLast? with
  | none => []
  | some z => (l.set i z).dropLast

/-- The entry that fires next at `now`, and the others. -/
def takeDue? (es : Schedule) (now : Nat) : Option (Entry × Schedule) := do
  let due ← earliestBy? es now
  let i ← es.findIdx? fun e ↦ e.due == due
  let e ← es[i]?
  return (e, swapRemove es i)

/-! ## Taking an entry out -/

theorem perm_set {α : Type} {l : List α} {i : Nat} (z : α) (h : i < l.length) :
    (l[i] :: l.set i z).Perm (z :: l) := by
  induction l generalizing i with
  | nil => exact absurd h (Nat.not_lt_zero i)
  | cons a l ih =>
    cases i with
    | zero => exact .swap z a l
    | succ i =>
      have hi : i < l.length := Nat.lt_of_succ_lt_succ h
      exact ((List.Perm.swap a l[i] _).trans ((ih hi).cons a)).trans (.swap z a l)

theorem perm_swapRemove {α : Type} {l : List α} {i : Nat} {a : α} (h : l[i]? = some a) :
    l.Perm (a :: swapRemove l i) := by
  obtain ⟨hi, rfl⟩ := List.getElem?_eq_some_iff.1 h
  have hne : l ≠ [] := by rintro rfl; exact absurd hi (Nat.not_lt_zero i)
  obtain ⟨front, z, rfl⟩ : ∃ front z, l = front ++ [z] :=
    ⟨l.dropLast, l.getLast hne, (List.dropLast_concat_getLast hne).symm⟩
  have hlast : (front ++ [z]).getLast? = some z := by simp
  rw [swapRemove, hlast]
  dsimp only
  rcases Nat.lt_or_ge i front.length with hlt | hge
  · rw [List.set_append_left _ _ hlt, List.dropLast_concat, List.getElem_append_left hlt]
    exact (List.perm_append_singleton z front).trans (perm_set z hlt).symm
  · have hz : i = front.length := by simp at hi; omega
    subst hz
    simp

theorem earliest?_eq_some_iff {es : Schedule} {due : Nat} :
    earliest? es = some due ↔ (∃ e ∈ es, e.due = due) ∧ ∀ e ∈ es, due ≤ e.due := by
  rw [earliest?, List.min?_eq_some_iff]
  simp

theorem earliest?_eq_none_iff {es : Schedule} : earliest? es = none ↔ es = [] := by
  simp [earliest?, List.min?_eq_none_iff]

theorem of_earliestBy? {es : Schedule} {now due : Nat} (h : earliestBy? es now = some due) :
    due ≤ now ∧ (∃ e ∈ es, e.due = due) ∧ ∀ e ∈ es, due ≤ e.due := by
  obtain ⟨⟨e, he, rfl⟩, hmin⟩ := earliest?_eq_some_iff.1 h
  obtain ⟨hmem, hle⟩ := List.mem_filter.1 he
  have hle : e.due ≤ now := by simpa using hle
  refine ⟨hle, ⟨e, hmem, rfl⟩, fun e' he' ↦ ?_⟩
  rcases Nat.lt_or_ge now e'.due with hlt | hge
  · omega
  · exact hmin e' (List.mem_filter.2 ⟨he', by simpa using hge⟩)

theorem earliestBy?_eq_none_iff {es : Schedule} {now : Nat} :
    earliestBy? es now = none ↔ ∀ e ∈ es, now < e.due := by
  rw [earliestBy?, earliest?_eq_none_iff, List.filter_eq_nil_iff]
  simp

/-- **What fires is due, nothing is due earlier, and it and the rest are the schedule.** -/
theorem of_takeDue? {es rest : Schedule} {now : Nat} {e : Entry}
    (h : takeDue? es now = some (e, rest)) :
    e.due ≤ now ∧ (∀ e' ∈ es, e.due ≤ e'.due) ∧ es.Perm (e :: rest) := by
  simp only [takeDue?, Option.bind_eq_bind, Option.bind_eq_some_iff, Option.pure_def,
    Option.some.injEq, Prod.mk.injEq] at h
  obtain ⟨due, hdue, i, hi, e', he', rfl, rfl⟩ := h
  obtain ⟨hnow, -, hmin⟩ := of_earliestBy? hdue
  obtain ⟨hlt, hp, -⟩ := List.findIdx?_eq_some_iff_getElem.1 hi
  have hval : e' = es[i] := by
    rw [List.getElem?_eq_getElem hlt] at he'
    exact (Option.some.inj he').symm
  have hd : e'.due = due := by rw [hval]; simpa using hp
  exact ⟨by omega, fun e he ↦ by have := hmin e he; omega, perm_swapRemove he'⟩

/-- Nothing fires exactly if nothing is due. -/
theorem takeDue?_eq_none_iff {es : Schedule} {now : Nat} :
    takeDue? es now = none ↔ ∀ e ∈ es, now < e.due := by
  rw [← earliestBy?_eq_none_iff]
  constructor
  · intro h
    cases hdue : earliestBy? es now with
    | none => rfl
    | some due =>
      obtain ⟨-, ⟨e, he, hd⟩, -⟩ := of_earliestBy? hdue
      cases hi : es.findIdx? fun e ↦ e.due == due with
      | none =>
        have hne := List.findIdx?_eq_none_iff.1 hi e he
        simp [hd] at hne
      | some i =>
        obtain ⟨hlt, -, -⟩ := List.findIdx?_eq_some_iff_getElem.1 hi
        simp [takeDue?, hdue, hi, hlt] at h
  · intro h
    simp [takeDue?, h]

end Schedule
end TileEvents
