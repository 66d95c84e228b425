import TileEvents.Proofs.Firing
import TileEvents.Tile.Hardware

/-!
# Time adds up

What becomes of a tile while time passes is told by how far the clock has come and not by how it
came there: two delays one after the other are one delay that is as long, and the order in which
things were scheduled is of no account (`Tile.spin_add`).  Firing takes entries out of the schedule
in ways that change the order of the others, so tiles are compared up to that order
(`Tile.Reordered`).

Behind it is what one move of the clock does (`Tile.Moved`), and when it breaks off.  It fires all
that is due and then finds nothing more, however long it goes on (`Tile.fireUpTo_of_le`), and it
breaks off exactly if some channel is to retire more transfers than it has in flight
(`Tile.exists_of_fireUpTo_error`).
-/

set_option autoImplicit false

namespace TileEvents
namespace Tile

/-- The tiles differ in the order of their schedules at most. -/
structure Reordered (t t' : Tile) : Prop where
  schedule : t'.schedule.Perm t.schedule
  others : t' = { t with schedule := t'.schedule }

/-- Both have broken off, or both have come to an end with tiles that differ in the order of their
schedules at most. -/
inductive Alike : Except Fault Tile → Except Fault Tile → Prop
  | error (f f' : Fault) : Alike (.error f) (.error f')
  | ok {u u' : Tile} (h : Reordered u u') : Alike (.ok u) (.ok u')

/-- The clock has moved to a time, and exactly what was due by then has fired. -/
def Moved (t : Tile) (now : Nat) (u : Tile) : Prop :=
  ∃ rest, rest.Perm (t.schedule.dueAfter now) ∧
    u = { t with now := now }.afterFiring (t.schedule.dueBy now) rest

variable {t t' t₁ u u' : Tile} {now now' k k' cycles : Nat} {f : Fault}

theorem alike_of {x y : Except Fault Tile} (hok : (∃ u, x = .ok u) ↔ ∃ u, y = .ok u)
    (h : ∀ u u', x = .ok u → y = .ok u' → Reordered u u') : Alike x y := by
  cases x with
  | error f =>
    cases y with
    | error f' => exact .error f f'
    | ok u' => exact absurd (hok.2 ⟨u', rfl⟩) nofun
  | ok u =>
    cases y with
    | error f' => exact absurd (hok.1 ⟨u, rfl⟩) nofun
    | ok u' => exact .ok (h u u' rfl rfl)

/-! ## Firing comes to an end -/

/-- Once there is room for all that is due, more room makes no difference. -/
theorem fireUpTo_of_le (hk : (t.schedule.dueBy t.now).length ≤ k) (hk' : k ≤ k') :
    fireUpTo k' t = fireUpTo k t := by
  induction k generalizing t k' with
  | zero =>
    cases k' with
    | zero => rfl
    | succ k' =>
      -- without room there is nothing that is due, so more room finds nothing
      have hnone : t.schedule.takeDue? t.now = none := by
        rw [Schedule.takeDue?_eq_none_iff, ← Schedule.dueBy_eq_nil_iff]
        exact List.length_eq_zero_iff.1 (Nat.le_zero.1 hk)
      simp only [fireUpTo, hnone]
  | succ k ih =>
    obtain ⟨k', rfl⟩ : ∃ j, k' = j + 1 := ⟨k' - 1, by omega⟩
    rw [fireUpTo, fireUpTo]
    cases htake : t.schedule.takeDue? t.now with
    | none => rfl
    | some r =>
      obtain ⟨e, others⟩ := r
      obtain ⟨hdue, -, hperm⟩ := Schedule.of_takeDue? htake
      have hlength := (Schedule.perm_due_cons hperm hdue).1.length_eq
      rw [List.length_cons] at hlength
      show (apply _ e.stimulus).bind (fireUpTo k') = (apply _ e.stimulus).bind (fireUpTo k)
      cases happly : apply { t with schedule := others } e.stimulus with
      | error f => rfl
      | ok t₁ =>
        rw [apply_eq others (inFlight_of_apply happly)] at happly
        obtain rfl := Except.ok.inj happly
        exact ih (by show (others.dueBy t.now).length ≤ k; omega) (by omega)

/-- What cannot happen is that a transfer retires of which none is in flight. -/
theorem of_apply_error {s : Stimulus} (h : t.apply s = .error f) :
    ∃ c, s = .retire c ∧ f = .nothingInFlight c ∧
      (t.transfers c).issued ≤ (t.transfers c).done := by
  cases s with
  | edge m => cases h
  | retire c =>
    rw [apply] at h
    split at h
    · cases h
    · next hnone =>
      obtain rfl : .nothingInFlight c = f := Except.error.inj h
      refine ⟨c, rfl, rfl, ?_⟩
      simpa [Transfers.inFlight] using hnone

/-- **Firing breaks off only where a channel is to retire more than it has in flight.** -/
theorem exists_of_fireUpTo_error (h : fireUpTo k t = .error f) :
    ∃ c, f = .nothingInFlight c ∧
      (t.transfers c).issued - (t.transfers c).done < (t.schedule.dueBy t.now).retirements c := by
  induction k generalizing t with
  | zero => cases h
  | succ k ih =>
    rw [fireUpTo] at h
    cases htake : t.schedule.takeDue? t.now with
    | none =>
      rw [htake] at h
      cases h
    | some r =>
      obtain ⟨e, others⟩ := r
      obtain ⟨hdue, -, hperm⟩ := Schedule.of_takeDue? htake
      have hcount := Schedule.retirements_dueBy_cons hperm hdue
      rw [htake] at h
      replace h : (apply _ e.stimulus).bind (fireUpTo k) = .error f := h
      cases happly : apply { t with schedule := others } e.stimulus with
      | error f' =>
        rw [happly] at h
        obtain rfl : f' = f := Except.error.inj h
        obtain ⟨c, hs, rfl, hnone⟩ := of_apply_error happly
        replace hnone : (t.transfers c).issued ≤ (t.transfers c).done := hnone
        refine ⟨c, rfl, ?_⟩
        have hone : Schedule.retirements [e] c = 1 :=
          (Schedule.retirements_singleton e c).trans (if_pos hs)
        rw [hcount]
        omega
      | ok t₁ =>
        rw [happly] at h
        rw [apply_eq others (inFlight_of_apply happly)] at happly
        obtain rfl := Except.ok.inj happly
        -- a channel that falls short later falls short now: what fires first takes from both sides
        obtain ⟨c, rfl, hlt⟩ := ih h
        refine ⟨c, rfl, ?_⟩
        rw [hcount]
        replace hlt : (t.transfers c).issued -
            ((t.transfers c).done + Schedule.retirements [e] c) <
              (others.dueBy t.now).retirements c := hlt
        omega

/-- **Everything that is due fires, if there are transfers for it, and else there is no end.** -/
theorem fireDue_ok_iff : (∃ u, t.fireDue = .ok u) ↔ t.SolventBy t.now := by
  constructor
  · rintro ⟨u, hu⟩
    exact (of_fireDue hu).1
  · intro hsolvent
    obtain ⟨rest, -, hfire⟩ := fireDue_eq hsolvent
    exact ⟨_, hfire⟩

/-! ## One move of the clock -/

/-- A delay comes to an end if the clock does not overflow and there are transfers for everything
that is to retire meanwhile. -/
theorem advance_ok_iff : (∃ u, t.advance cycles = .ok u) ↔
    t.now + cycles < clockLimit ∧ t.SolventBy (t.now + cycles) := by
  rw [advance]
  split
  · next hover =>
    refine iff_of_false ?_ fun h ↦ absurd h.1 (Nat.not_lt.2 hover)
    rintro ⟨u, hu⟩
    cases hu
  · next hclock =>
    rw [fireDue_ok_iff]
    exact (and_iff_right (Nat.lt_of_not_le hclock)).symm

theorem moved_of_advance (h : t.advance cycles = .ok u) : t.Moved (t.now + cycles) u := by
  rw [advance] at h
  split at h
  · cases h
  · obtain ⟨-, rest, hrest, rfl⟩ := of_fireDue h
    exact ⟨rest, hrest, rfl⟩

theorem Moved.now_eq (h : t.Moved now u) : u.now = now := by
  obtain ⟨rest, -, rfl⟩ := h
  rfl

/-- Where the clock has moved to decides everything but the order of the schedule. -/
theorem Moved.reordered (h : t.Moved now u) (h' : t.Moved now u') : Reordered u u' := by
  obtain ⟨rest, hrest, rfl⟩ := h
  obtain ⟨rest', hrest', rfl⟩ := h'
  exact ⟨hrest'.trans hrest.symm, rfl⟩

/-- Two moves of the clock are one. -/
theorem Moved.trans (h : t.Moved now t₁) (h' : t₁.Moved now' u) (hle : now ≤ now') :
    t.Moved now' u := by
  obtain ⟨rest, hrest, rfl⟩ := h
  obtain ⟨rest', hrest', rfl⟩ := h'
  obtain ⟨hby, hafter⟩ := Schedule.perm_due_of_le hle hrest
  refine ⟨rest', hrest'.trans hafter, ?_⟩
  rw [← afterFiring_perm _ rest' hby]
  exact afterFiring_append { t with now := now' } _ _ _ _

/-- There are transfers for a later time exactly if there are for what is left to fire by then. -/
theorem Moved.solventBy_iff (h : t.Moved now t₁) (hle : now ≤ now') :
    t.SolventBy now' ↔ t.SolventBy now ∧ t₁.SolventBy now' := by
  obtain ⟨rest, hrest, rfl⟩ := h
  have hcount := Schedule.retirements_dueBy_of_le hle hrest
  simp only [SolventBy, afterFiring, retired, hcount, ← forall_and]
  exact forall_congr' fun c ↦ by omega

/-- A tile that could come to the later time can come to the earlier one. -/
theorem SolventBy.of_le (h : t.SolventBy now') (hle : now ≤ now') : t.SolventBy now := by
  intro c
  have hfew : (t.schedule.dueBy now).retirements c ≤ (t.schedule.dueBy now').retirements c := by
    simp only [Schedule.retirements, Schedule.dueBy, List.countP_filter]
    refine List.countP_mono_left fun e _ he ↦ ?_
    simp only [Bool.and_eq_true, decide_eq_true_eq] at he ⊢
    exact ⟨he.1, Nat.le_trans he.2 hle⟩
  exact Nat.le_trans hfew (h c)

/-! ## The order of the schedule -/

theorem Reordered.solventBy_iff (h : Reordered t t') : t'.SolventBy now ↔ t.SolventBy now := by
  obtain ⟨hperm, heq⟩ := h
  refine forall_congr' fun c ↦ ?_
  have hdue : (t'.schedule.dueBy now).Perm (t.schedule.dueBy now) := hperm.filter _
  rw [Schedule.retirements_perm hdue, congrArg transfers heq]

theorem Reordered.moved (h : Reordered t t') (hu : t.Moved now u) (hu' : t'.Moved now u') :
    Reordered u u' := by
  obtain ⟨hperm, heq⟩ := h
  obtain ⟨rest, hrest, rfl⟩ := hu
  obtain ⟨rest', hrest', rfl⟩ := hu'
  refine ⟨(hrest'.trans (hperm.filter _)).trans hrest.symm, ?_⟩
  have hby : (t'.schedule.dueBy now).Perm (t.schedule.dueBy now) := hperm.filter _
  rw [afterFiring_perm _ rest' hby, heq]
  rfl

/-- **Two delays are one delay that is as long.** -/
theorem alike_advance_add (a b : Nat) :
    Alike (t.advance a >>= fun u ↦ u.advance b) (t.advance (a + b)) := by
  have hsplit : ∀ {u}, (t.advance a >>= fun u ↦ u.advance b) = .ok u ↔
      ∃ t₁, t.advance a = .ok t₁ ∧ t₁.advance b = .ok u := by
    intro u
    cases t.advance a with
    | error f => exact iff_of_false nofun nofun
    | ok t₁ => exact ⟨fun h ↦ ⟨t₁, rfl, h⟩, fun ⟨_, rfl, h⟩ ↦ h⟩
  refine alike_of ?_ fun u u' hu hu' ↦ ?_
  · simp only [hsplit]
    rw [advance_ok_iff]
    constructor
    · rintro ⟨u, t₁, hfirst, hthen⟩
      have hmoved := moved_of_advance hfirst
      obtain ⟨hclock, hsolvent⟩ := advance_ok_iff.1 ⟨u, hthen⟩
      rw [hmoved.now_eq, Nat.add_assoc] at hclock hsolvent
      refine ⟨hclock, (hmoved.solventBy_iff (by omega)).2 ⟨?_, hsolvent⟩⟩
      exact (advance_ok_iff.1 ⟨t₁, hfirst⟩).2
    · rintro ⟨hclock, hsolvent⟩
      -- the stop on the way is no obstacle: the clock is lower there and less has to retire
      have hle : t.now + a ≤ t.now + (a + b) := by omega
      obtain ⟨t₁, hfirst⟩ := advance_ok_iff.2 ⟨by omega, hsolvent.of_le hle⟩
      have hmoved := moved_of_advance hfirst
      obtain ⟨u, hthen⟩ : ∃ u, t₁.advance b = .ok u := by
        rw [advance_ok_iff, hmoved.now_eq, Nat.add_assoc]
        exact ⟨hclock, ((hmoved.solventBy_iff hle).1 hsolvent).2⟩
      exact ⟨u, t₁, hfirst, hthen⟩
  · obtain ⟨t₁, hfirst, hthen⟩ := hsplit.1 hu
    have hmoved := moved_of_advance hfirst
    have hmoved' := moved_of_advance hthen
    rw [hmoved.now_eq, Nat.add_assoc] at hmoved'
    exact (hmoved.trans hmoved' (by omega)).reordered (moved_of_advance hu')

theorem Reordered.alike_advance (h : Reordered t t') (cycles : Nat) :
    Alike (t.advance cycles) (t'.advance cycles) := by
  have hnow : t'.now = t.now := by rw [h.others]
  refine alike_of ?_ fun u u' hu hu' ↦ ?_
  · rw [advance_ok_iff, advance_ok_iff, hnow, h.solventBy_iff]
  · have hmoved := moved_of_advance hu'
    rw [hnow] at hmoved
    exact h.moved (moved_of_advance hu) hmoved

/-! ## What comes of it -/

/-- What firing does to a tile: it takes out exactly what is due, raises its lines and retires its
transfers.  It does so however much room it is given, and it breaks off if some channel is to
retire more than it has in flight. -/
structure FiresDue (t : Tile) : Prop where
  terminates : ∀ k, t.schedule.length ≤ k → fireUpTo k t = t.fireDue
  ok : ∀ u, t.fireDue = .ok u → u.schedule.Perm (t.schedule.dueAfter t.now) ∧
    u = { t with
      buffer := t.buffer ∪ (t.schedule.dueBy t.now).lines
      schedule := u.schedule
      transfers := fun c ↦ { t.transfers c with
        done := (t.transfers c).done + (t.schedule.dueBy t.now).retirements c } }
  error_iff : (∃ f, t.fireDue = .error f) ↔
    ∃ c, (t.transfers c).issued - (t.transfers c).done < (t.schedule.dueBy t.now).retirements c

theorem firesDue (t : Tile) : FiresDue t where
  terminates k hk := fireUpTo_of_le (List.length_filter_le _ _) hk
  ok u hu := by
    obtain ⟨-, rest, hrest, rfl⟩ := of_fireDue hu
    exact ⟨hrest, rfl⟩
  error_iff := by
    constructor
    · rintro ⟨f, hf⟩
      obtain ⟨c, -, hlt⟩ := exists_of_fireUpTo_error hf
      exact ⟨c, hlt⟩
    · rintro ⟨c, hlt⟩
      cases hfire : t.fireDue with
      | error f => exact ⟨f, rfl⟩
      | ok u => exact absurd ((of_fireDue hfire).1 c) (Nat.not_le.2 hlt)

/-- **Time adds up, and the order of the schedule is of no account.**  Two spins of the hart break
off exactly if one that is as long does, and else they lead to the same tile; and so do spins of two
tiles that differ in the order of their schedules.  Here tiles are the same if they differ in that
order at most. -/
theorem spin_add (t : Tile) {a b : UInt32} (hsum : a.toNat + b.toNat < UInt32.size) :
    Alike (platform.spin a t >>= platform.spin b) (platform.spin (a + b) t) ∧
      (∀ es : Schedule, es.Perm t.schedule →
        Alike (platform.spin a t) (platform.spin a { t with schedule := es })) ∧
      FiresDue t := by
  refine ⟨?_, fun es hperm ↦ ?_, firesDue t⟩
  · have hadd : (a + b).toNat = a.toNat + b.toNat := by
      rw [UInt32.toNat_add]
      exact Nat.mod_eq_of_lt hsum
    show Alike _ (t.advance (a + b).toNat)
    rw [hadd]
    exact alike_advance_add a.toNat b.toNat
  · exact Reordered.alike_advance ⟨hperm, rfl⟩ a.toNat

/-- A tile on which a transfer retires and then the accelerator is done. -/
def twoDue : Tile :=
  { initial with
    transfers := fun _ ↦ ⟨1, 0⟩
    schedule := [⟨7, .edge Line.accDone.mask⟩, ⟨4, .retire (.first .l2ToL1)⟩] }

/-- One of the two fires in each of two spins, and both fire in one. -/
theorem spin_add_twoDue :
    (4 : UInt32).toNat + (3 : UInt32).toNat < UInt32.size ∧ ∃ u u',
      (platform.spin 4 twoDue >>= platform.spin 3) = .ok u ∧
        platform.spin (4 + 3) twoDue = .ok u' ∧ u.now = 7 ∧ u.schedule = [] ∧ Reordered u u' := by
  have hsum : (4 : UInt32).toNat + (3 : UInt32).toNat < UInt32.size := by decide
  obtain ⟨u, hu, hnow, hnone⟩ : ∃ u, (platform.spin 4 twoDue >>= platform.spin 3) = .ok u ∧
      u.now = 7 ∧ u.schedule = [] := ⟨_, rfl, rfl, rfl⟩
  obtain ⟨u', hu'⟩ : ∃ u', platform.spin (4 + 3) twoDue = .ok u' := ⟨_, rfl⟩
  have halike := (spin_add twoDue hsum).1
  rw [hu, hu'] at halike
  cases halike with
  | ok hsame => exact ⟨hsum, u, u', hu, hu', hnow, hnone, hsame⟩

end Tile
end TileEvents
