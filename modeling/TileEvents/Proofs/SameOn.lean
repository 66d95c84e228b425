import TileEvents.Proofs.Firing

/-!
# Tiles that look the same on some lines

`Tile.SameOn m` holds of two tiles if nobody who looks at the lines of `m` only can tell them apart:
the same of these lines are up, the same are reported, and the same of them are going to come up at
the same times.  Everything else may differ, the other lines, the lines that wake the hart, what
else is scheduled, the transfers, the log.

Two tiles that are the same on some lines stay the same when their clocks are moved to one time
(`Tile.SameOn.passes`), and a tile is the same as before on the lines for which nothing came up
while its clock was moved (`Tile.SameOn.of_passes`).
-/

set_option autoImplicit false

namespace TileEvents

namespace Schedule

/-- What is going to come up on the lines of a mask, and when.  Entries for other lines are left
out. -/
def within (es : Schedule) (m : EventMask) : List (Nat × EventMask) :=
  (es.map fun e ↦ (e.due, e.stimulus.lines ∩ m)).filter fun x ↦ !x.2.isEmpty

theorem mem_within {es : Schedule} {m : EventMask} {x : Nat × EventMask} :
    x ∈ es.within m ↔ ∃ e ∈ es, (e.due, e.stimulus.lines ∩ m) = x ∧ x.2.isEmpty = false := by
  simp only [within, List.mem_filter, List.mem_map, Bool.not_eq_true']
  constructor
  · rintro ⟨⟨e, he, hx⟩, hsome⟩
    exact ⟨e, he, hx, hsome⟩
  · rintro ⟨e, he, hx, hsome⟩
    exact ⟨⟨e, he, hx⟩, hsome⟩

theorem within_perm {es es' : Schedule} (h : es.Perm es') (m : EventMask) :
    (es.within m).Perm (es'.within m) :=
  (h.map _).filter _

/-- What is left for the lines of a mask after a time. -/
theorem within_dueAfter (es : Schedule) (m : EventMask) (now : Nat) :
    (es.dueAfter now).within m = (es.within m).filter fun x ↦ decide (now < x.1) := by
  rw [within, dueAfter, within, List.filter_filter, List.filter_map, List.filter_map,
    List.filter_filter]
  refine congrArg _ (List.filter_congr fun e _ ↦ ?_)
  exact Bool.and_comm _ _

/-- The lines of a mask that come up by a time. -/
theorem mem_lines_dueBy {es : Schedule} {m : EventMask} {now b : Nat} (hb : b ∈ m) :
    b ∈ (es.dueBy now).lines ↔ ∃ x ∈ es.within m, x.1 ≤ now ∧ b ∈ x.2 := by
  rw [mem_lines]
  constructor
  · rintro ⟨e, he, hlines⟩
    obtain ⟨he, hdue⟩ := mem_dueBy.1 he
    have hmem : b ∈ e.stimulus.lines ∩ m := EventMask.mem_inter.2 ⟨hlines, hb⟩
    exact ⟨_, mem_within.2 ⟨e, he, rfl, EventMask.isEmpty_eq_false_iff.2 ⟨b, hmem⟩⟩, hdue, hmem⟩
  · rintro ⟨x, hx, hdue, hlines⟩
    obtain ⟨e, he, rfl, -⟩ := mem_within.1 hx
    exact ⟨e, mem_dueBy.2 ⟨he, hdue⟩, (EventMask.mem_inter.1 hlines).1⟩

/-- What is going to come up on fewer lines. -/
theorem within_subset (es : Schedule) {m q : EventMask} (h : q ⊆ m) :
    es.within q = ((es.within m).map fun x ↦ (x.1, x.2 ∩ q)).filter fun x ↦ !x.2.isEmpty := by
  have hinter (k : EventMask) : (k ∩ m) ∩ q = k ∩ q := by
    refine EventMask.ext_mem fun b ↦ ?_
    simp only [EventMask.mem_inter]
    exact ⟨fun hb ↦ ⟨hb.1.1, hb.2⟩, fun hb ↦ ⟨⟨hb.1, EventMask.subset_iff.1 h b hb.2⟩, hb.2⟩⟩
  have hsome (k : EventMask) (hk : (k ∩ q).isEmpty = false) : (k ∩ m).isEmpty = false := by
    obtain ⟨b, hb⟩ := EventMask.isEmpty_eq_false_iff.1 hk
    rw [← hinter] at hb
    exact EventMask.isEmpty_eq_false_iff.2 ⟨b, (EventMask.mem_inter.1 hb).1⟩
  rw [within, within]
  simp only [List.filter_map, List.map_map, List.filter_filter, Function.comp_def, hinter]
  refine congrArg _ (List.filter_congr fun e _ ↦ ?_)
  cases hk : (e.stimulus.lines ∩ q).isEmpty with
  | true => rfl
  | false => simp [hsome _ hk]

/-- An entry for the lines of a mask is one for lines that wake the hart, if these do. -/
theorem nextEdge?_le_within {es : Schedule} {m irq : EventMask} {due : Nat} (h : m ⊆ irq)
    (hdue : es.nextEdge? irq = some due) {x : Nat × EventMask} (hx : x ∈ es.within m) :
    due ≤ x.1 := by
  obtain ⟨e, he, rfl, hsome⟩ := mem_within.1 hx
  obtain ⟨b, hb⟩ := EventMask.isEmpty_eq_false_iff.1 hsome
  obtain ⟨hlines, hb⟩ := EventMask.mem_inter.1 hb
  exact (nextEdge?_eq_some_iff.1 hdue).2 e he
    (EventMask.intersects_iff.2 ⟨b, hlines, EventMask.subset_iff.1 h b hb⟩)

end Schedule

namespace Tile

/-- Nobody who looks at the lines of the mask only can tell the tiles apart. -/
structure SameOn (m : EventMask) (t u : Tile) : Prop where
  buffer : t.buffer ∩ m = u.buffer ∩ m
  mask : t.mask ∩ m = u.mask ∩ m
  schedule : (t.schedule.within m).Perm (u.schedule.within m)

namespace SameOn

variable {m q : EventMask} {t t' u u' : Tile}

theorem symm (h : SameOn m t u) : SameOn m u t :=
  ⟨h.buffer.symm, h.mask.symm, h.schedule.symm⟩

theorem mem_buffer (h : SameOn m t u) {b : Nat} (hb : b ∈ m) : b ∈ t.buffer ↔ b ∈ u.buffer := by
  have hinter : b ∈ t.buffer ∩ m ↔ b ∈ u.buffer ∩ m := by rw [h.buffer]
  simpa only [EventMask.mem_inter, hb, and_true] using hinter

theorem mem_mask (h : SameOn m t u) {b : Nat} (hb : b ∈ m) : b ∈ t.mask ↔ b ∈ u.mask := by
  have hinter : b ∈ t.mask ∩ m ↔ b ∈ u.mask ∩ m := by rw [h.mask]
  simpa only [EventMask.mem_inter, hb, and_true] using hinter

/-- Tiles are the same on some lines if each line is up and reported on both or on neither. -/
theorem of_mem (hbuffer : ∀ b, b ∈ m → (b ∈ t.buffer ↔ b ∈ u.buffer))
    (hmask : ∀ b, b ∈ m → (b ∈ t.mask ↔ b ∈ u.mask))
    (hschedule : (t.schedule.within m).Perm (u.schedule.within m)) : SameOn m t u := by
  refine ⟨EventMask.ext_mem fun b ↦ ?_, EventMask.ext_mem fun b ↦ ?_, hschedule⟩
  · simp only [EventMask.mem_inter]
    exact and_congr_left (hbuffer b)
  · simp only [EventMask.mem_inter]
    exact and_congr_left (hmask b)

theorem mono (h : SameOn m t u) (hq : q ⊆ m) : SameOn q t u := by
  have hmem := EventMask.subset_iff.1 hq
  refine of_mem (fun b hb ↦ h.mem_buffer (hmem b hb)) (fun b hb ↦ h.mem_mask (hmem b hb)) ?_
  rw [Schedule.within_subset _ hq, Schedule.within_subset _ hq]
  exact (h.schedule.map _).filter _

/-- Both tiles report the same of these lines. -/
theorem reported (h : SameOn m t u) : t.reported ∩ m = u.reported ∩ m := by
  refine EventMask.ext_mem fun b ↦ ?_
  simp only [Tile.reported, EventMask.mem_inter]
  exact and_congr_left fun hb ↦ and_congr (h.mem_buffer hb) (h.mem_mask hb)

/-- **Two tiles that are the same on some lines are so after their clocks have moved to one time.** -/
theorem passes (h : SameOn m t u) (ht : Passes t t') (hu : Passes u u') (hnow : t'.now = u'.now) :
    SameOn m t' u' := by
  refine of_mem (fun b hb ↦ ?_) (fun b hb ↦ ?_) ?_
  · rw [ht.buffer, hu.buffer, EventMask.mem_union, EventMask.mem_union,
      Schedule.mem_lines_dueBy hb, Schedule.mem_lines_dueBy hb, hnow, h.mem_buffer hb]
    simp only [h.schedule.mem_iff]
  · rw [ht.mask, hu.mask]
    exact h.mem_mask hb
  · refine (Schedule.within_perm ht.schedule m).trans (.trans ?_
      (Schedule.within_perm hu.schedule m).symm)
    rw [Schedule.within_dueAfter, Schedule.within_dueAfter, hnow]
    exact h.schedule.filter _

/-- A tile is the same on lines for which nothing came up while its clock moved. -/
theorem of_passes (ht : Passes t t') (hlater : ∀ x ∈ t.schedule.within m, t'.now < x.1) :
    SameOn m t' t := by
  refine of_mem (fun b hb ↦ ?_) (fun b _ ↦ by rw [ht.mask]) ?_
  · rw [ht.buffer, EventMask.mem_union, Schedule.mem_lines_dueBy hb, or_iff_left]
    rintro ⟨x, hx, hdue, -⟩
    exact Nat.not_lt.2 hdue (hlater x hx)
  · refine (Schedule.within_perm ht.schedule m).trans ?_
    rw [Schedule.within_dueAfter]
    exact .of_eq (List.filter_eq_self.2 fun x hx ↦ decide_eq_true (hlater x hx))

theorem trans {w : Tile} (h : SameOn m t u) (h' : SameOn m u w) : SameOn m t w :=
  ⟨h.buffer.trans h'.buffer, h.mask.trans h'.mask, h.schedule.trans h'.schedule⟩

end SameOn
end Tile
end TileEvents
