import TileEvents.Proofs.Footprint

/-!
# Going to sleep with care

A wait that sleeps does so in naps, and before it puts the hart to sleep in one it has made sure of
two things: the lines that it asks for wake the hart, and a look right before has found none of them
up (`CarefulAt`).  Lines are added to those that wake the hart only when they are asked for and do
not wake it yet.

What a wait asks for are its lines or, if it waits for all of them, those that it has not taken so
far (`Wait.asked`).  It is careful up to any point of a run (`careful_driver`), as a hart that was
put to sleep need not wake again.
-/

set_option autoImplicit false

namespace TileEvents
namespace EventUnit

/-- The lines that were taken down. -/
def cleared (es : List Event) : EventMask := .unions (es.map Event.clears)

theorem mem_cleared {es : List Event} {b : Nat} : b ∈ cleared es ↔ ∃ e ∈ es, b ∈ e.clears := by
  rw [cleared, EventMask.mem_unions]
  constructor
  · rintro ⟨m, hm, hb⟩
    obtain ⟨e, he, rfl⟩ := List.mem_map.1 hm
    exact ⟨e, he, hb⟩
  · rintro ⟨e, he, hb⟩
    exact ⟨e.clears, List.mem_map_of_mem he, hb⟩

theorem cleared_append (es es' : List Event) : cleared (es ++ es') = cleared es ∪ cleared es' :=
  EventMask.ext_mem fun b ↦ by simp [mem_cleared, or_and_right, exists_or]

/-- What is consumed is what was taken down. -/
theorem Consumes.cleared_eq {es : List Event} {m : EventMask} (h : Consumes es m) :
    cleared es = m :=
  EventMask.ext_mem fun _ ↦ mem_cleared.trans h.mem_iff.symm

theorem cleared_of_quiet {es : List Event} (h : Quiet es) : cleared es = ∅ :=
  (Consumes.of_quiet h).cleared_eq

/-- What a wait asks for after these events: its lines or, if it is for all of them, those that it
has not taken yet. -/
def Wait.asked (w : Wait) (es : List Event) : EventMask :=
  match w with
  | .all plan => plan.required \ cleared es
  | w => w.mask

theorem Wait.asked_subset (w : Wait) (es : List Event) : w.asked es ⊆ w.mask := by
  cases w with
  | all plan => exact EventMask.sdiff_subset _ _
  | _ => exact EventMask.subset_refl _

/-- After the events `before`, where these lines are asked for, it takes care to do this. -/
structure CarefulAt (asked : EventMask) (before : List Event) (e : Event) : Prop where
  /-- The hart sleeps right after it was asked which lines wake it, the lines were added if they did
  not, and a look found none of them up. -/
  sleep : e = .suspend → ∃ earlier waking up,
    before = earlier ++ (asking asked waking ++ [.look up]) ∧ (up ∩ asked).isEmpty = true
  /-- Exactly the lines are added, right after it was found that they do not wake the hart. -/
  wake : ∀ value, e = .write .eventUnit Register.irqMaskOr.offset value → value = asked.bits ∧
    ∃ earlier waking, before = earlier ++ [.read .eventUnit Register.irqMask.offset waking.bits] ∧
      ¬ asked ⊆ waking

/-- All of it is done with care, if this is what is asked for after any of the events. -/
def Careful (asked : List Event → EventMask) (es : List Event) : Prop :=
  EachAfter (fun before e ↦ CarefulAt (asked before) before e) es

section Events

variable {asked asked' : List Event → EventMask} {m : EventMask} {before es es' : List Event}
  {e : Event}

theorem CarefulAt.after (h : CarefulAt m before e) (past : List Event) :
    CarefulAt m (past ++ before) e where
  sleep he := by
    obtain ⟨earlier, waking, up, rfl, hdown⟩ := h.sleep he
    exact ⟨past ++ earlier, waking, up, (List.append_assoc _ _ _).symm, hdown⟩
  wake value he := by
    obtain ⟨rfl, earlier, waking, rfl, hasks⟩ := h.wake value he
    exact ⟨rfl, past ++ earlier, waking, (List.append_assoc _ _ _).symm, hasks⟩

/-- What neither puts the hart to sleep nor changes what wakes it needs no care. -/
def Harmless (e : Event) : Prop :=
  e ≠ .suspend ∧ ∀ value, e ≠ .write .eventUnit Register.irqMaskOr.offset value

theorem Harmless.carefulAt (h : Harmless e) : CarefulAt m before e :=
  ⟨fun he ↦ absurd he h.1, fun value he ↦ absurd he (h.2 value)⟩

theorem harmless_look (up : EventMask) : Harmless (.look up) := by
  simp [Harmless, Event.look]

theorem harmless_takeDown (m : EventMask) : Harmless (.takeDown m) := by
  simp [Harmless, Event.takeDown, Register.offset]

theorem Records.harmless (h : Records es) : ∀ e ∈ es, Harmless e := by
  intro e he
  obtain ⟨s, text, rfl⟩ := h e he
  simp [Harmless]

theorem harmless_taking (up m : EventMask) : ∀ e ∈ taking up m, Harmless e := by
  refine List.forall_mem_cons.2 ⟨harmless_look up, ?_⟩
  split
  · exact fun _ he ↦ absurd he List.not_mem_nil
  · exact List.forall_mem_singleton.2 (harmless_takeDown _)

/-- Care goes on if after the first events it is asked for the same. -/
theorem Careful.append (h : Careful asked es) (h' : Careful asked' es')
    (hasked : ∀ before, asked (es ++ before) = asked' before) : Careful asked (es ++ es') := by
  refine eachAfter_append_iff.2 ⟨h, fun before e after hsplit ↦ ?_⟩
  show CarefulAt (asked (es ++ before)) (es ++ before) e
  rw [hasked]
  exact (h' before e after hsplit).after es

theorem Careful.append_harmless (h : Careful asked es) (h' : ∀ e ∈ es', Harmless e) :
    Careful asked (es ++ es') := by
  refine eachAfter_append_iff.2 ⟨h, ?_⟩
  rintro before e after rfl
  exact (h' e (by simp)).carefulAt

/-- Up to any point of it, it is done with care. -/
theorem Careful.of_isPrefix (h : Careful asked es') (hpart : es <+: es') : Careful asked es := by
  obtain ⟨rest, rfl⟩ := hpart
  exact (eachAfter_append_iff.1 h).1

theorem careful_asking (waking : EventMask) (hasked : ∀ before, Quiet before → asked before = m) :
    Careful asked (asking m waking) := by
  refine eachAfter_cons_iff.2 ⟨Harmless.carefulAt (by simp [Harmless]), ?_⟩
  split
  · exact eachAfter_nil
  · next hasks =>
    refine eachAfter_cons_iff.2 ⟨?_, eachAfter_nil⟩
    rw [hasked _ (quiet_singleton (.waking waking) rfl)]
    refine ⟨nofun, fun value he ↦ ?_⟩
    obtain ⟨-, -, rfl⟩ := Event.write.inj he
    exact ⟨rfl, [], waking, rfl, hasks⟩

/-- **A nap is careful**, if its lines are asked for until something is taken down. -/
theorem careful_nap (x : Nap) (hasked : ∀ before, Quiet before → asked before = m) :
    Careful asked (x.events m) := by
  have hasking := careful_asking x.waking hasked
  rw [Nap.events]
  cases hfirst : (x.first ∩ m).isEmpty with
  | false =>
    rw [Nap.looks_of_up hfirst]
    exact hasking.append_harmless (harmless_taking x.first m)
  | true =>
    have hlook : taking x.first m = [.look x.first] := by rw [taking, if_pos hfirst]
    have hquiet : Quiet (asking m x.waking ++ [.look x.first]) :=
      List.forall_mem_append.2 ⟨quiet_asking m x.waking, quiet_singleton (.look x.first) rfl⟩
    have hsleep : Careful asked ((asking m x.waking ++ [.look x.first]) ++ [.suspend]) := by
      refine eachAfter_append_iff.2 ⟨hasking.append_harmless
        (List.forall_mem_singleton.2 (harmless_look x.first)),
        eachAfter_cons_iff.2 ⟨?_, eachAfter_nil⟩⟩
      rw [List.append_nil, hasked _ hquiet]
      exact ⟨fun _ ↦ ⟨[], x.waking, x.first, rfl, hfirst⟩, fun _ he ↦ absurd he (by simp)⟩
    have hall := hsleep.append_harmless (harmless_taking x.second m)
    rw [Nap.looks_of_down hfirst, hlook]
    simpa using hall

end Events

/-! ## Every wait that sleeps -/

section Paths

variable {asked : List Event → EventMask} {m requested : EventMask} {v : Verbosity} {n n' : Nat}
  {es : List Event}

theorem careful_suspend (hasked : ∀ before, Quiet before → asked before = m)
    (h : (suspend m).Begins v n es) : Careful asked es := by
  obtain ⟨x, records, hpart, hrecords⟩ := begins_suspend h
  exact ((careful_nap x hasked).append_harmless hrecords.harmless).of_isPrefix hpart

/-- A wait for one of several lines asks for all of them in each nap. -/
theorem careful_waitAnyOf {budget : Budget} (h : (waitAnyOf m .suspend budget).Begins v n es) :
    Careful (fun _ ↦ m) es := by
  have hturn : ∀ {n es}, (waitAnyTurn m .suspend budget).Begins v n es →
      Careful (fun _ ↦ m) es := by
    intro n es h
    unfold waitAnyTurn at h
    rw [Driver.begins_bind_iff] at h
    rcases h with h | ⟨es₁, seen, n₁, es₂, rfl, hnap, h⟩
    · exact careful_suspend (fun _ _ ↦ rfl) h
    · obtain rfl : es₂ = [] := by
        split at h
        · exact Driver.begins_pure_iff.1 h
        · exact Driver.begins_pure_iff.1 h
      rw [List.append_nil]
      exact careful_suspend (fun _ _ ↦ rfl) hnap.begins
  rw [waitAnyOf] at h
  split at h
  · obtain rfl := Driver.begins_pure_iff.1 h
    exact eachAfter_nil
  · exact Driver.begins_loop (R := fun _ es ↦ Careful (fun _ ↦ m) es) (fun _ _ _ h ↦ hturn h)
      (fun _ _ _ _ _ _ h hrest ↦ (hturn h.begins).append hrest fun _ ↦ rfl) h

/-- Uses of `suspend` ask for what is still missing. -/
theorem careful_uses {uses : List Use} (h : Uses .suspend requested uses) :
    Careful (fun es ↦ requested \ cleared es) (uses.flatMap Use.all) := by
  have hfirst : ∀ {requested : EventMask} (before : List Event), Quiet before →
      requested \ cleared before = requested := by
    intro requested before hquiet
    rw [cleared_of_quiet hquiet, EventMask.sdiff_empty]
  induction h with
  | nil => exact eachAfter_nil
  | broken h =>
    rw [List.flatMap_singleton, Use.all, List.append_nil]
    exact careful_suspend hfirst h
  | @cons requested seen limit v n n' es records us h hrecords _ ih =>
    rw [List.flatMap_cons, Use.all]
    refine ((careful_suspend hfirst h.begins).append_harmless hrecords.harmless).append ih
      fun before ↦ ?_
    rw [cleared_append, cleared_append, (consumes_wait h).1.cleared_eq,
      cleared_of_quiet hrecords.quiet, EventMask.union_empty, EventMask.sdiff_union]

theorem careful_waitAll {plan : WaitPlan} (hmode : plan.mode = .suspend)
    (h : (waitAll plan).Begins v n es) : Careful (fun es ↦ plan.required \ cleared es) es := by
  obtain ⟨uses, huses, rfl⟩ | ⟨es', t, n', records, hrounds, rfl, hrecords⟩ :=
    begins_waitAll_asleep hmode h
  · exact careful_uses huses
  · obtain ⟨uses, huses, rfl⟩ := areUses_suspendRounds hrounds.begins
    exact (careful_uses huses).append_harmless
      (List.forall_mem_cons.2 ⟨harmless_takeDown _, hrecords.harmless⟩)

/-- **Every wait that sleeps is careful**, up to any point of a run. -/
theorem careful_driver {w : Wait} (hmode : w.mode = .suspend) (h : w.driver.Begins v n es) :
    Careful w.asked es := by
  cases w with
  | poll m budget => exact nomatch hmode
  | suspend m => exact careful_suspend (fun _ _ ↦ rfl) (Driver.begins_bind_pure_iff.1 h)
  | block m mode budget =>
    obtain rfl : mode = .suspend := hmode
    exact careful_suspend (fun _ _ ↦ rfl) (Driver.begins_bind_pure_iff.1 h)
  | anyOf m mode budget =>
    obtain rfl : mode = .suspend := hmode
    exact careful_waitAnyOf h
  | any plan =>
    obtain ⟨devices, mode, budget, slice⟩ := plan
    obtain rfl : mode = .suspend := hmode
    exact careful_waitAnyOf h
  | device d mode =>
    obtain rfl : mode = .suspend := hmode
    exact careful_waitAnyOf h
  | all plan => exact careful_waitAll hmode h

end Paths
end EventUnit
end TileEvents
