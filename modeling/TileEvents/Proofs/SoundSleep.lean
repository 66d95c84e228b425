import TileEvents.Proofs.Careful
import TileEvents.Proofs.Reaches
import TileEvents.Proofs.Rounds
import TileEvents.Proofs.Since

/-!
# A hart that sleeps can be woken

What a wait has read of a tile is still so when it puts the hart to sleep, as no time passes in
between.  So the care that it takes is enough: the lines that it asks for wake the hart, and none of
them is reported and up (`Wait.sleeps_soundly`).  No edge was missed before the sleep, then, and
none can be missed during it.
-/

set_option autoImplicit false

namespace TileEvents

namespace Tile

variable {p : Platform Tile} {t t' : Tile} {ms : List (Moment Tile)} {m : Moment Tile}

/-- Over a whole walk the reported lines stay the same. -/
theorem IsHart.walk_mask (hp : IsHart p) (h : p.Walk t ms t') (hwait : ∀ m ∈ ms, m.event.OfWait) :
    t'.mask = t.mask := by
  induction ms generalizing t with
  | nil => rw [Platform.Walk.nil_iff.1 h]
  | cons m ms ih =>
    obtain ⟨rfl, -, hrest⟩ := Platform.Walk.cons_iff.1 h
    rw [ih hrest fun m' hm' ↦ hwait m' (.tail m hm')]
    exact (hp.waitedAt h (.head ms) (hwait m (.head ms))).mask

/-- So they do up to any moment of it. -/
theorem IsHart.mask_before (hp : IsHart p) (h : p.Walk t ms t')
    (hwait : ∀ m ∈ ms, m.event.OfWait) (hm : m ∈ ms) : m.before.mask = t.mask := by
  obtain ⟨before, after, rfl⟩ := List.append_of_mem hm
  exact hp.walk_mask h.split.1 fun m' hm' ↦ hwait m' (List.mem_append_left _ hm')

/-- Lines are added to those that wake the hart, and none are taken out. -/
theorem IsHart.walk_irqMask (hp : IsHart p) (h : p.Walk t ms t')
    (hwait : ∀ m ∈ ms, m.event.OfWait) {lines : EventMask}
    (hwoken : ∀ m ∈ ms, m.event.woken ⊆ lines) :
    t.irqMask ⊆ t'.irqMask ∧ t'.irqMask ⊆ t.irqMask ∪ lines := by
  induction ms generalizing t with
  | nil =>
    obtain rfl := Platform.Walk.nil_iff.1 h
    exact ⟨EventMask.subset_refl _, EventMask.subset_union_left _ _⟩
  | cons m ms ih =>
    obtain ⟨rfl, -, hrest⟩ := Platform.Walk.cons_iff.1 h
    have hm := hp.waitedAt h (.head ms) (hwait m (.head ms))
    obtain ⟨hgrows, hbound⟩ := ih hrest (fun m' hm' ↦ hwait m' (.tail m hm'))
      fun m' hm' ↦ hwoken m' (.tail m hm')
    rw [hm.irqMask] at hgrows hbound
    refine ⟨EventMask.subset_trans (EventMask.subset_union_left _ _) hgrows,
      EventMask.subset_trans hbound ?_⟩
    refine EventMask.union_subset.2 ⟨EventMask.union_subset.2 ⟨?_, ?_⟩, ?_⟩
    · exact EventMask.subset_union_left _ _
    · exact EventMask.subset_trans (hwoken m (.head ms)) (EventMask.subset_union_right _ _)
    · exact EventMask.subset_union_right _ _

/-- After it was asked which lines wake the hart, and these were added if they did not, they do. -/
theorem IsHart.of_asking (hp : IsHart p) (h : p.Walk t ms t') {asked waking : EventMask}
    (he : ms.map Moment.event = EventUnit.asking asked waking) : asked ⊆ t'.irqMask := by
  rw [EventUnit.asking, List.map_eq_cons_iff] at he
  obtain ⟨question, answers, rfl, hquestion, hanswers⟩ := he
  obtain ⟨rfl, -, hrest⟩ := Platform.Walk.cons_iff.1 h
  obtain ⟨rfl, hsame⟩ := hp.of_waking h (.head _) hquestion
  rw [hsame] at hrest
  split at hanswers
  · next hwakes =>
    obtain rfl := List.map_eq_nil_iff.1 hanswers
    rwa [Platform.Walk.nil_iff.1 hrest]
  · obtain ⟨wake, rest, rfl, hwake, hnone⟩ := List.map_eq_cons_iff.1 hanswers
    obtain rfl := List.map_eq_nil_iff.1 hnone
    obtain ⟨-, -, hend⟩ := Platform.Walk.cons_iff.1 hrest
    rw [Platform.Walk.nil_iff.1 hend, hp.of_wake hrest (.head _) hwake]
    exact EventMask.subset_union_right _ _

/-- **Care is enough on a tile.**  A careful wait that is about to put the hart to sleep has made
sure that the lines it asks for wake the hart and that none of them is reported and up. -/
theorem IsHart.of_carefulAt (hp : IsHart p) (h : p.Walk t ms t') {asked : EventMask}
    (hcareful : EventUnit.CarefulAt asked (ms.map Moment.event) .suspend) :
    asked ⊆ t'.irqMask ∧ (t'.buffer ∩ t'.mask ∩ asked).isEmpty = true := by
  obtain ⟨earlier, waking, up, hevents, hdown⟩ := hcareful.sleep rfl
  obtain ⟨before, since, rfl, -, hsince⟩ := List.map_eq_append_iff.1 hevents
  obtain ⟨asks, looks, rfl, hasks, hlooks⟩ := List.map_eq_append_iff.1 hsince
  obtain ⟨look, none, rfl, hlook, hnone⟩ := List.map_eq_cons_iff.1 hlooks
  obtain rfl := List.map_eq_nil_iff.1 hnone
  obtain ⟨s₁, -, hsince⟩ := Platform.Walk.append_iff.1 h
  obtain ⟨s₂, hwalk, hend⟩ := Platform.Walk.append_iff.1 hsince
  obtain ⟨hreported, hsame⟩ := hp.of_look hend (.head _) hlook
  obtain ⟨rfl, -, hlast⟩ := Platform.Walk.cons_iff.1 hend
  rw [Platform.Walk.nil_iff.1 hlast, hsame]
  rw [← hreported] at hdown
  exact ⟨hp.of_asking hwalk hasks, hdown⟩

end Tile

namespace EventUnit

/-- Lines that a careful wait makes wake the hart are lines that it has asked for. -/
theorem Careful.woken_subset {asked : List Event → EventMask} {m : EventMask} {es : List Event}
    (h : Careful asked es) (hasked : ∀ before, asked before ⊆ m) : ∀ e ∈ es, e.woken ⊆ m := by
  intro e he
  obtain ⟨before, after, hsplit⟩ := List.append_of_mem he
  have hcare := h before e after hsplit
  cases e with
  | write w o value =>
    cases w with
    | eventUnit =>
      rw [Event.woken]
      split
      · next ho =>
        subst ho
        obtain ⟨rfl, -⟩ := hcare.wake value rfl
        exact hasked before
      · exact EventMask.empty_subset m
    | dma => exact EventMask.empty_subset m
  | _ => exact EventMask.empty_subset m

/-- What happens in a wait, moment by moment, is what a wait does. -/
theorem Wait.ofWait_of_reaches {p : Platform Tile} {w : Wait} {v : Verbosity} {n : Nat}
    {t t' : Tile} {past : List (Moment Tile)} {rest : Program (Except WaitError EventMask × Nat)}
    (h : p.Reaches (w.driver.program v n) t past rest t') : ∀ m ∈ past, m.event.OfWait :=
  fun _ hm ↦ Tile.ofWait_of_ofMode (ofMode_driver h.begins _ (List.mem_map_of_mem hm))

/-- **The hart never sleeps on an event that has arrived, nor without the lines that are to wake
it.**

A wait that sleeps runs on a tile in any state, up to any point.  If it is about to put the hart to
sleep there, then the lines that it asks for wake the hart, and none of them is reported and up.
Since the wait began the reported lines have stayed the same, and lines were only added to those
that wake the hart, all of them lines of the wait. -/
theorem Wait.sleeps_soundly {p : Platform Tile} (hp : Tile.IsHart p) {w : Wait}
    (hmode : w.mode = .suspend) {v : Verbosity} {n : Nat} {t t' : Tile} {past : List (Moment Tile)}
    {rest : Program (Except WaitError EventMask × Nat)}
    (h : p.Reaches (w.driver.program v n) t past rest t') :
    (∀ next, rest = .step .suspend next →
      let asked := w.asked (past.map Moment.event)
      asked ⊆ t'.irqMask ∧ (t'.buffer ∩ t'.mask ∩ asked).isEmpty = true) ∧
    t'.mask = t.mask ∧ t.irqMask ⊆ t'.irqMask ∧ t'.irqMask ⊆ t.irqMask ∪ w.mask ∧
    ∀ m ∈ past, m.after.mask = m.before.mask ∧ m.before.irqMask ⊆ m.after.irqMask := by
  have hwait := Wait.ofWait_of_reaches h
  have hwoken := (careful_driver hmode h.begins).woken_subset w.asked_subset
  obtain ⟨hgrows, hbound⟩ := hp.walk_irqMask h.walk hwait
    fun m hm ↦ hwoken m.event (List.mem_map_of_mem hm)
  refine ⟨?_, hp.walk_mask h.walk hwait, hgrows, hbound, fun m hm ↦ ?_⟩
  · intro next hnext asked
    have hcareful : Careful w.asked (past.map Moment.event ++ [.suspend]) :=
      careful_driver hmode (h.begins_next hnext ())
    exact hp.of_carefulAt h.walk (hcareful _ _ [] rfl)
  · have hm' := hp.waitedAt h.walk hm (hwait m hm)
    rw [hm'.irqMask]
    exact ⟨hm'.mask, EventMask.subset_union_left _ _⟩

/-- A wait for both devices has seen the accelerator and is about to sleep for the data mover. -/
theorem sleeps_soundly_halfDone : ∃ past next t',
    Tile.platform.Reaches ((waitAll bothDone).program none 1) halfDone past (.step .suspend next)
      t' ∧
    (Wait.all bothDone).asked (past.map Moment.event) = (Line.dma .l2ToL1 .done).mask ∧
    (Line.dma .l2ToL1 .done).mask ⊆ t'.irqMask ∧
    (t'.buffer ∩ t'.mask ∩ (Line.dma .l2ToL1 .done).mask).isEmpty = true := by
  obtain ⟨past, next, t', hreaches, hasked⟩ : ∃ past next t',
      Tile.platform.Reaches ((waitAll bothDone).program none 1) halfDone past (.step .suspend next)
        t' ∧
      (Wait.all bothDone).asked (past.map Moment.event) = (Line.dma .l2ToL1 .done).mask :=
    ⟨_, _, _, .step rfl <| .step rfl <| .step rfl <| .step rfl <| .step rfl <| .step rfl <|
      .here _ _, rfl⟩
  have hsound := Wait.sleeps_soundly Tile.isHart_platform (w := .all bothDone) rfl hreaches
  obtain ⟨hwakes, hdown⟩ := hsound.1 next rfl
  rw [hasked] at hwakes hdown
  exact ⟨past, next, t', hreaches, hasked, hwakes, hdown⟩

end EventUnit
end TileEvents
