import TileEvents.Proofs.Returns
import TileEvents.Proofs.Since
import TileEvents.Scenario

/-!
# What happens to a tile

A scenario takes steps on one tile with one hart, at one verbosity.  A `Life` leaves all of that
open: each step may be taken by either hart, at any verbosity and with any number of calls, and what
is proved of every life holds of every scenario that is played to its end (`Life.of_play`).
What each kind of step does to the tile is said once, in the namespace of `TileStep.Takes`.

A `Chronicle` is a life that has been written down with the answer to each step.
-/

set_option autoImplicit false

namespace TileEvents

/-! ## Steps -/

/-- What is scheduled is in the schedule, and nothing else has happened. -/
theorem Tile.of_scheduleAfter {t t' : Tile} {s : Stimulus} {cycles : Nat}
    (h : t.scheduleAfter s cycles = .ok t') :
    t' = { t with schedule := t.schedule ++ [⟨t.now + cycles, s⟩] } := by
  rw [scheduleAfter] at h
  split at h
  · cases h
  · split at h
    · exact (Except.ok.inj h).symm
    · cases h

namespace TileStep

/-- The step can bring one tile to the other.  A command may be run by either hart, at any verbosity
and with any number of calls. -/
def Takes : TileStep → Tile → Tile → Prop
  | command c, t, t' => ∃ p, Tile.IsHart p ∧ ∃ v n a n', p.Returns c.driver v n t a n' t'
  | step, t, t' => ∃ p v a, (step.run p v t).outcome = .returned a t'

/-- The step can bring one tile to the other and be answered so. -/
def Yields : TileStep → Tile → Answer → Tile → Prop
  | command c, t, a, t' => ∃ p, Tile.IsHart p ∧ ∃ v n n', p.Returns c.driver v n t a n' t'
  | step, t, a, t' => ∃ p v, (step.run p v t).outcome = .returned a t'

theorem Yields.takes {step : TileStep} {t t' : Tile} {a : Answer} (h : step.Yields t a t') :
    step.Takes t t' := by
  cases step with
  | command c =>
    obtain ⟨p, hp, v, n, n', hreturns⟩ := h
    exact ⟨p, hp, v, n, a, n', hreturns⟩
  | _ =>
    obtain ⟨p, v, hrun⟩ := h
    exact ⟨p, v, a, hrun⟩

theorem eq_of_byHand {σ : Type} {result : Except Fault (Answer × σ)} {a : Answer} {s : σ}
    (h : (Run.byHand result).outcome = .returned a s) : result = .ok (a, s) := by
  cases result with
  | error f => exact nomatch h
  | ok r =>
    obtain ⟨rfl, rfl⟩ := Outcome.returned.inj h
    rfl

theorem exists_of_map {α β : Type} {x : Except Fault α} {f : α → β} {b : β}
    (h : x.map f = .ok b) : ∃ a, x = .ok a ∧ f a = b := by
  cases x with
  | error f => exact nomatch h
  | ok a => exact ⟨a, rfl, Except.ok.inj h⟩

/-- Every step that a scenario takes. -/
theorem yields_of_run {p : Platform Tile} (hp : Tile.IsHart p) {v : Verbosity} {step : TileStep}
    {t t' : Tile} {a : Answer} (h : (step.run p v t).outcome = .returned a t') :
    step.Yields t a t' := by
  cases step with
  | command c =>
    replace h : (p.run (c.driver.toProgram v callLimit) t).outcome = .returned a t' := h
    rw [Driver.toProgram, Platform.run_bind] at h
    rcases hrun : p.run (c.driver.program v callLimit) t with ⟨es, ⟨⟨b, n'⟩, t₁⟩ | f | _⟩
    · rw [hrun] at h
      obtain ⟨rfl, rfl⟩ := Outcome.returned.inj h
      exact ⟨p, hp, v, callLimit, n', congrArg Run.outcome hrun⟩
    · rw [hrun] at h
      exact nomatch h
    · rw [hrun] at h
      exact nomatch h
  | _ => exact ⟨p, v, h⟩

end TileStep

/-! ## What a step takes -/

namespace TileStep.Takes

variable {t t' : Tile} {cycles o : Nat}

theorem of_raise {m : EventMask} (h : (raise m).Takes t t') : t' = t.raise m := by
  obtain ⟨p, v, a, hrun⟩ := h
  exact (Outcome.returned.inj hrun).2.symm

theorem of_setClock {on : Bool} (h : (setClock on).Takes t t') :
    t' = { t with clockOn := on } := by
  obtain ⟨p, v, a, hrun⟩ := h
  exact (Outcome.returned.inj hrun).2.symm

/-- Something is scheduled by hand. -/
theorem scheduleAfter_of_byHand {s : Stimulus} {a : Answer}
    (h : (Run.byHand ((t.scheduleAfter s cycles).map fun t ↦ (Answer.ok, t))).outcome =
      .returned a t') : t.scheduleAfter s cycles = .ok t' := by
  obtain ⟨u, hschedule, heq⟩ := exists_of_map (eq_of_byHand h)
  obtain ⟨-, rfl⟩ := Prod.mk.inj heq
  exact hschedule

theorem of_raiseAfter {m : EventMask} (h : (raiseAfter m cycles).Takes t t') :
    t.scheduleAfter (.edge m) cycles = .ok t' := by
  obtain ⟨p, v, a, hrun⟩ := h
  exact scheduleAfter_of_byHand hrun

/-- No retirement is scheduled on a channel that there is not. -/
theorem of_retireAfter {d : Direction} {index : Nat} (h : (retireAfter d index cycles).Takes t t') :
    (∃ c, Channel.ofIndex d index = .ok c ∧ t.scheduleAfter (.retire c) cycles = .ok t') ∨
      (∃ e, Channel.ofIndex d index = .error e) ∧ t' = t := by
  obtain ⟨p, v, a, hrun⟩ := h
  rw [TileStep.run] at hrun
  split at hrun
  · next c hc => exact .inl ⟨c, hc, scheduleAfter_of_byHand hrun⟩
  · next e hc => exact .inr ⟨⟨e, hc⟩, (Outcome.returned.inj hrun).2.symm⟩

theorem of_readRegister {w : Window} (h : (readRegister w o).Takes t t') :
    ∃ value, Tile.platform.answer (.read w o) t = .ok (value, t') := by
  obtain ⟨p, v, a, hrun⟩ := h
  obtain ⟨⟨value, u⟩, hread, heq⟩ := exists_of_map (eq_of_byHand hrun)
  obtain ⟨-, rfl⟩ := Prod.mk.inj heq
  exact ⟨value, hread⟩

theorem of_writeRegister {w : Window} {value : UInt32} (h : (writeRegister w o value).Takes t t') :
    Tile.platform.answer (.write w o value) t = .ok ((), t') := by
  obtain ⟨p, v, a, hrun⟩ := h
  obtain ⟨u, hwrite, heq⟩ := exists_of_map (eq_of_byHand hrun)
  obtain ⟨-, rfl⟩ := Prod.mk.inj heq
  exact Platform.answer_write_iff.2 hwrite

end TileStep.Takes

/-! ## One step after the other -/

/-- A step that was taken, and the tile before and after it. -/
structure Taken where
  step : TileStep
  before : Tile
  after : Tile

/-- Steps that were taken one after the other. -/
inductive Life : Tile → List Taken → Tile → Prop
  | rest (t : Tile) : Life t [] t
  | step {x : Taken} {taken : List Taken} {t : Tile} (h : x.step.Takes x.before x.after)
      (hrest : Life x.after taken t) : Life x.before (x :: taken) t

/-- A step that was taken, and what it was answered with. -/
structure Noted extends Taken where
  answer : Answer

/-- Steps that were taken one after the other, and their answers. -/
inductive Chronicle : Tile → List Noted → Tile → Prop
  | rest (t : Tile) : Chronicle t [] t
  | step {x : Noted} {log : List Noted} {t : Tile} (h : x.step.Yields x.before x.answer x.after)
      (hrest : Chronicle x.after log t) : Chronicle x.before (x :: log) t

theorem Chronicle.life {t t' : Tile} {log : List Noted} (h : Chronicle t log t') :
    Life t (log.map Noted.toTaken) t' := by
  induction h with
  | rest t => exact .rest t
  | step h _ ih => exact .step h.takes ih

/-- Every scenario that is played to its end. -/
theorem Chronicle.of_play {p : Platform Tile} (hp : Tile.IsHart p) {v : Verbosity}
    {steps : List TileStep} {rows : List (Row Tile)} {t t' : Tile}
    (h : play (TileStep.run p v) steps t = ⟨rows, .finished t'⟩) :
    ∃ log : List Noted, log.map (·.step) = steps ∧ log.map Noted.answer = rows.map Row.answer ∧
      Chronicle t log t' := by
  induction steps generalizing t rows with
  | nil =>
    obtain ⟨rfl, hend⟩ := Played.mk.inj h
    obtain rfl := Ending.finished.inj hend
    exact ⟨[], rfl, rfl, .rest t⟩
  | cons step steps ih =>
    rw [play] at h
    dsimp only at h
    split at h
    · next a t₁ hrun =>
      obtain ⟨rfl, hend⟩ := Played.mk.inj h
      obtain ⟨log, rfl, hanswers, hlog⟩ := ih (congrArg (Played.mk _) hend)
      refine ⟨⟨⟨step, t, t₁⟩, a⟩ :: log, rfl, congrArg _ hanswers, ?_⟩
      exact .step (x := ⟨⟨step, t, t₁⟩, a⟩) (TileStep.yields_of_run hp hrun) hlog
    · exact nomatch (Played.mk.inj h).2
    · exact nomatch (Played.mk.inj h).2

theorem Life.of_play {p : Platform Tile} (hp : Tile.IsHart p) {v : Verbosity}
    {steps : List TileStep} {rows : List (Row Tile)} {t t' : Tile}
    (h : play (TileStep.run p v) steps t = ⟨rows, .finished t'⟩) :
    ∃ taken, taken.map Taken.step = steps ∧ Life t taken t' := by
  obtain ⟨log, hsteps, -, hlog⟩ := Chronicle.of_play hp h
  exact ⟨log.map Noted.toTaken, by rwa [List.map_map], hlog.life⟩

end TileEvents
