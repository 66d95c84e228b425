import TileEvents.Proofs.Arrivals
import TileEvents.Proofs.Asleep

/-!
# Lines that come up again during a wait for all devices

A device may be done once more while a wait for all of several devices still waits for another one.
Its line was taken by then, and comes up again.

A wait that polls leaves it up, for the next wait to take.  A wait that sleeps takes down all of its
lines once more in the end, without looking: what has come up again is lost.  That last write was
meant to find nothing up, and it does so exactly if no line of the wait has come up again.
-/

set_option autoImplicit false

namespace TileEvents

namespace EventUnit

/-- A wait that sleeps for all devices is its rounds, a write to the clearing register, and
records. -/
theorem does_waitAll_asleep {plan : WaitPlan} (hmode : plan.mode = .suspend) {v : Verbosity}
    {n n' : Nat} {es : List Event} {m : EventMask}
    (h : (waitAll plan).Does v n es (.ok m) n') :
    ∃ rounds records, es = rounds ++ .takeDown plan.required :: records ∧
      Consumes rounds plan.required ∧ Records records := by
  obtain ⟨⟨answer, log⟩, hanswer, hall⟩ := Driver.does_bind_pure_iff.1 h
  obtain rfl : .ok m = answer := hanswer
  obtain ⟨-, -, hempty⟩ | ⟨rounds, outcome, t, n₁, records, -, -, hrecords, hrounds⟩ :=
    does_waitAllRounds hall
  · exact nomatch hempty
  obtain ⟨-, hrounds, -, rfl⟩ | ⟨hpolling, -⟩ := hrounds
  · obtain ⟨hconsumes, htotal⟩ := consumes_suspendRounds hrounds
    rw [htotal]
    exact ⟨rounds, records, rfl, hconsumes, hrecords⟩
  · exact nomatch hmode.symm.trans hpolling

/-- A line that was taken is up afterwards exactly if it has come up again. -/
theorem mem_buffer_iff_reposted {t t' : Tile} {ms : List (Moment Tile)}
    (h : Tile.platform.Walk t ms t') {m : EventMask}
    (hconsumes : Consumes (ms.map Moment.event) m) {b : Nat} (hb : b ∈ m) :
    b ∈ t'.buffer ↔ Reposted Tile.arrivals ms b := by
  have hlatches : ∀ m ∈ ms, Latches Tile.buffer Tile.arrivals m := fun m hm ↦
    Tile.latches h hm (hconsumes.ofWait m.event (List.mem_map_of_mem hm))
  refine mem_iff_reposted h hlatches ?_
  rw [hconsumes.once b, if_pos hb]

/-- **A wait for all devices keeps the lines that come up again if it polls, and loses them if it
sleeps.**

Polling, a line that was taken is up when the wait returns exactly if it has come up again.  Asleep,
the same holds when the rounds are over; but then all of the lines are taken down without a look,
and that changes nothing exactly if none of them has come up again. -/
theorem waitAll_reposted {plan : WaitPlan} {t t' : Tile} {ms : List (Moment Tile)} {m : EventMask}
    (h : Tile.platform.Completes (waitAll plan) t ms (.ok m) t') :
    (plan.mode = .polling → Looked (ms.map Moment.event) ∧
      ∀ b, b ∈ plan.required → (b ∈ t'.buffer ↔ Reposted Tile.arrivals ms b)) ∧
    (plan.mode = .suspend → ∃ rounds closing records, ms = rounds ++ closing :: records ∧
      Looked (rounds.map Moment.event) ∧ closing.event = .takeDown plan.required ∧
      (∀ r ∈ records, ∃ severity text, r.event = .report severity text) ∧
      (∀ b, b ∈ plan.required →
        (b ∈ closing.before.buffer ↔ Reposted Tile.arrivals ms b)) ∧
      t'.buffer = closing.before.buffer \ plan.required ∧
      (t'.buffer = closing.before.buffer ↔
        ∀ b, b ∈ plan.required → ¬ Reposted Tile.arrivals ms b) ∧
      ((∀ b, b ∈ plan.required → Reposted Tile.arrivals ms b → b ∈ t'.buffer) ↔
        ∀ b, b ∈ plan.required → ¬ Reposted Tile.arrivals ms b)) := by
  obtain ⟨v, n, n', hdoes⟩ := h.does
  constructor
  · intro hmode
    obtain ⟨lines, hconsumes, -, hanswer⟩ := consumes_waitAll hmode hdoes
    obtain ⟨-, rfl⟩ | ⟨hanswer, -⟩ | ⟨hanswer, -⟩ := hanswer
    · exact ⟨hconsumes.looked, fun b hb ↦ mem_buffer_iff_reposted h.walk hconsumes hb⟩
    · exact nomatch hanswer
    · exact nomatch hanswer
  · intro hmode
    obtain ⟨es, es', hes, hconsumes, hrecords⟩ := does_waitAll_asleep hmode hdoes
    obtain ⟨rounds, ms', rfl, rfl, hms'⟩ := List.map_eq_append_iff.1 hes
    obtain ⟨closing, records, rfl, hclosing, rfl⟩ := List.map_eq_cons_iff.1 hms'
    obtain ⟨u, hrounds, hwalk⟩ := Platform.Walk.append_iff.1 h.walk
    obtain ⟨rfl, hclear, hlater⟩ := Platform.Walk.cons_iff.1 hwalk
    have hreports : ∀ r ∈ records, ∃ severity text, r.event = .report severity text :=
      fun r hr ↦ hrecords r.event (List.mem_map_of_mem hr)
    obtain rfl := hlater.of_reports hreports
    have hwrite := hclear.answer_of_event (.head []) (a := .write .eventUnit _ plan.required.bits)
      (r := ()) hclosing
    obtain ⟨hschedule, hbuffer⟩ := Tile.of_writeClear (Platform.answer_write_iff.1 hwrite)
    -- nothing fires at the closing write and after it
    have hquiet : ∀ r ∈ closing :: records, Tile.arrivals r = ∅ := by
      refine List.forall_mem_cons.2 ⟨Tile.arrivals_of_same hschedule, fun r hr ↦ ?_⟩
      obtain ⟨severity, text, hreport⟩ := hreports r hr
      exact Tile.arrivals_of_same (congrArg Tile.schedule (hlater.same_of_report hr hreport))
    have hup : ∀ b, b ∈ plan.required →
        (b ∈ closing.before.buffer ↔ Reposted Tile.arrivals (rounds ++ closing :: records) b) := by
      intro b hb
      rw [reposted_append_iff fun r hr ↦ hquiet r hr ▸ EventMask.not_mem_empty b]
      exact mem_buffer_iff_reposted hrounds hconsumes hb
    have hdown : ∀ b, b ∈ plan.required → ¬ b ∈ closing.after.buffer := by
      intro b hb hb'
      rw [hbuffer, EventMask.mem_sdiff] at hb'
      exact hb'.2 hb
    refine ⟨rounds, closing, records, rfl, hconsumes.looked, hclosing, hreports, hup, hbuffer,
      ?_, ?_⟩
    · rw [hbuffer]
      constructor
      · intro hsame b hb hagain
        refine hdown b hb ?_
        rw [hbuffer, hsame]
        exact (hup b hb).2 hagain
      · intro hnone
        refine EventMask.ext_mem fun b ↦ ?_
        rw [EventMask.mem_sdiff]
        exact and_iff_left_of_imp fun hb' hb ↦ hnone b hb ((hup b hb).1 hb')
    · constructor
      · exact fun hkept b hb hagain ↦ hdown b hb (hkept b hb hagain)
      · exact fun hnone b hb hagain ↦ absurd hagain (hnone b hb)

/-- The accelerator is done at 5 and its line is taken, it is done again at 7, and the data mover
is done at 9. -/
theorem completes_doneTwice : ∃ ms t',
    Tile.platform.Completes (waitAll bothDone) doneTwice ms (.ok bothDone.required) t' ∧
    Reposted Tile.arrivals ms Line.accDone.position ∧ t'.buffer = ∅ := by
  obtain ⟨es, tally, u, t', hrun, hup, hclear, hschedule, hnone, hall⟩ : ∃ es tally u t',
      Tile.platform.run ((suspendRounds bothDone.required).program none 3) doneTwice =
        ⟨es, .returned (tally, 0) u⟩ ∧ Line.accDone.position ∈ u.buffer ∧
      Tile.platform.answer (.write .eventUnit Register.bufferClear.offset bothDone.required.bits) u
        = .ok ((), t') ∧ t'.schedule = u.schedule ∧ t'.buffer = ∅ ∧
      Tile.platform.run ((waitAll bothDone).program none 3) doneTwice =
        ⟨es ++ [.takeDown bothDone.required], .returned (.ok bothDone.required, 0) t'⟩ :=
    ⟨_, _, _, _, rfl, rfl, rfl, rfl, rfl, rfl⟩
  obtain ⟨rounds, rfl, hrounds⟩ := Platform.completes_of_run hrun
  obtain ⟨hconsumes, -⟩ := consumes_suspendRounds (.of_run hrun)
  let closing : Moment Tile := ⟨u, .takeDown bothDone.required, t'⟩
  have hclosing : Tile.platform.Walk u [closing] t' := .step hclear (.rest t')
  refine ⟨rounds ++ [closing], t', ⟨none, 3, 0, ?_, ?_⟩, ?_, hnone⟩
  · rw [List.map_append]
    exact hall
  · exact Platform.Walk.append_iff.2 ⟨u, hrounds.walk, hclosing⟩
  · have hquiet : ∀ m ∈ [closing], ¬ Line.accDone.position ∈ Tile.arrivals m := by
      intro m hm
      obtain rfl := List.mem_singleton.1 hm
      rw [Tile.arrivals_of_same hschedule]
      exact EventMask.not_mem_empty _
    rw [reposted_append_iff hquiet]
    exact (mem_buffer_iff_reposted hrounds.walk hconsumes (by decide)).1 hup

/-- The closing write takes down a line that nobody has looked at since. -/
theorem waitAll_reposted_doneTwice : ∃ rounds closing records t',
    Tile.platform.Completes (waitAll bothDone) doneTwice (rounds ++ closing :: records)
      (.ok bothDone.required) t' ∧
    closing.event = .takeDown bothDone.required ∧ Line.accDone.position ∈ closing.before.buffer ∧
    Reposted Tile.arrivals (rounds ++ closing :: records) Line.accDone.position ∧
    t'.buffer = ∅ ∧ t'.buffer ≠ closing.before.buffer := by
  obtain ⟨ms, t', hrun, hagain, hnone⟩ := completes_doneTwice
  have hrequired : Line.accDone.position ∈ bothDone.required := by decide
  obtain ⟨rounds, closing, records, rfl, -, hclosing, -, hup, -, hsame, -⟩ :=
    (waitAll_reposted hrun).2 rfl
  exact ⟨rounds, closing, records, t', hrun, hclosing, (hup _ hrequired).2 hagain, hagain, hnone,
    fun h ↦ hsame.1 h _ hrequired hagain⟩

/-- It is not so that a wait that sleeps keeps all that comes up again. -/
theorem not_waitAll_keeps_reposted :
    ¬ ∀ {plan : WaitPlan} {t t' : Tile} {ms : List (Moment Tile)} {m : EventMask},
      plan.mode = .suspend → plan.required ⊆ t.mask →
      Tile.platform.Completes (waitAll plan) t ms (.ok m) t' →
      ∀ b, b ∈ plan.required → Reposted Tile.arrivals ms b → b ∈ t'.buffer := by
  intro h
  obtain ⟨ms, t', hrun, hagain, hnone⟩ := completes_doneTwice
  have hkept := h rfl (EventMask.subset_refl _) hrun Line.accDone.position (by decide) hagain
  rw [hnone] at hkept
  exact EventMask.not_mem_empty _ hkept

end EventUnit
end TileEvents
