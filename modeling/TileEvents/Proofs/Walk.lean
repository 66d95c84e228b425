import TileEvents.Proofs.Path

/-!
# Runs, moment by moment

`Platform.run` says what happened in a run and how it ended.  To say what the hardware was like
when something happened, a run is cut into `Moment`s, each with the state that it began and ended
in.  `Platform.Walk` is a list of moments that follow each other, and every run that comes to its
end is one (`Platform.exists_walk`).

`Platform.Completes` is a driver that is run to its end, with its moments.  It is a path through
the driver, which no hardware can change, and a walk of the hardware, which no driver can change
(`Platform.Completes.does`, `Platform.Completes.walk`).  That is how the laws of runs are proved:
one half for every hardware, the other for every driver.
-/

set_option autoImplicit false

namespace TileEvents

/-- Something that happened, and the hardware before and after. -/
structure Moment (σ : Type) where
  before : σ
  event : Event
  after : σ

namespace Platform

variable {σ α : Type} {p : Platform σ}

/-- The moments follow each other: the first begins in one state and the last ends in the other. -/
inductive Walk (p : Platform σ) : σ → List (Moment σ) → σ → Prop
  | rest (s : σ) : Walk p s [] s
  | step {s s₁ s' : σ} {action : Action} {reply : action.Reply} {ms : List (Moment σ)}
      (h : p.answer action s = .ok (reply, s₁)) (hrest : Walk p s₁ ms s') :
      Walk p s (⟨s, .ofReply action reply, s₁⟩ :: ms) s'

namespace Walk

@[simp] theorem nil_iff {s s' : σ} : p.Walk s [] s' ↔ s' = s := by
  constructor
  · rintro ⟨⟩
    rfl
  · rintro rfl
    exact .rest _

theorem cons_iff {s s' : σ} {m : Moment σ} {ms : List (Moment σ)} :
    p.Walk s (m :: ms) s' ↔
      m.before = s ∧ p.Walk s [m] m.after ∧ p.Walk m.after ms s' := by
  constructor
  · rintro ⟨⟩
    exact ⟨rfl, .step (by assumption) (.rest _), by assumption⟩
  · rintro ⟨-, h, hrest⟩
    cases h with
    | step h _ => exact .step h hrest

theorem append_iff {s s' : σ} {ms ms' : List (Moment σ)} :
    p.Walk s (ms ++ ms') s' ↔ ∃ s₁, p.Walk s ms s₁ ∧ p.Walk s₁ ms' s' := by
  induction ms generalizing s with
  | nil => simp
  | cons m ms ih =>
    rw [List.cons_append, cons_iff, ih]
    constructor
    · rintro ⟨hb, hm, s₁, h, h'⟩
      exact ⟨s₁, cons_iff.2 ⟨hb, hm, h⟩, h'⟩
    · rintro ⟨s₁, h, h'⟩
      obtain ⟨hb, hm, h⟩ := cons_iff.1 h
      exact ⟨hb, hm, s₁, h, h'⟩

/-- A walk up to one of its moments, and from there on. -/
theorem split {s s' : σ} {before after : List (Moment σ)} {m : Moment σ}
    (h : p.Walk s (before ++ m :: after) s') :
    p.Walk s before m.before ∧ p.Walk m.after after s' := by
  obtain ⟨s₁, hbefore, hrest⟩ := append_iff.1 h
  obtain ⟨rfl, -, hafter⟩ := cons_iff.1 hrest
  exact ⟨hbefore, hafter⟩

/-- Each moment of a walk is an answer of the hardware. -/
theorem answer_of_mem {s s' : σ} {ms : List (Moment σ)} (h : p.Walk s ms s') {m : Moment σ}
    (hm : m ∈ ms) : ∃ action reply, p.answer action m.before = .ok (reply, m.after) ∧
      m.event = .ofReply action reply := by
  induction h with
  | rest s => exact absurd hm List.not_mem_nil
  | step h _ ih =>
    rcases List.mem_cons.1 hm with rfl | hm
    · exact ⟨_, _, h, rfl⟩
    · exact ih hm

/-- The event of a moment says what the action was. -/
theorem action_inj {a b : Action} {r : a.Reply} {t : b.Reply}
    (h : Event.ofReply a r = Event.ofReply b t) : a = b := by
  cases a <;> cases b <;> simp_all [Event.ofReply]

theorem reply_inj {a : Action} {r t : a.Reply} (h : Event.ofReply a r = Event.ofReply a t) :
    r = t := by
  cases a <;> simp_all [Event.ofReply]

/-- What a moment of a walk says was replied is the hardware's answer. -/
theorem answer_of_event {s s' : σ} {ms : List (Moment σ)} (h : p.Walk s ms s') {m : Moment σ}
    (hm : m ∈ ms) {a : Action} {r : a.Reply} (he : m.event = .ofReply a r) :
    p.answer a m.before = .ok (r, m.after) := by
  obtain ⟨action, reply, hanswer, hevent⟩ := h.answer_of_mem hm
  rw [he] at hevent
  obtain rfl := action_inj hevent
  obtain rfl := reply_inj hevent
  exact hanswer

/-- Records are for the reader: no hardware changes by one. -/
theorem same_of_report {s s' : σ} {ms : List (Moment σ)} (h : p.Walk s ms s') {m : Moment σ}
    (hm : m ∈ ms) {severity : Severity} {text : String} (he : m.event = .report severity text) :
    m.after = m.before := by
  have answer := h.answer_of_event hm (a := .report severity text) (r := ()) he
  exact (Prod.mk.inj (Except.ok.inj answer)).2.symm

theorem of_reports {s s' : σ} {ms : List (Moment σ)} (h : p.Walk s ms s')
    (hms : ∀ m ∈ ms, ∃ severity text, m.event = .report severity text) : s' = s := by
  induction ms generalizing s with
  | nil => exact nil_iff.1 h
  | cons m ms ih =>
    obtain ⟨rfl, -, hrest⟩ := cons_iff.1 h
    obtain ⟨severity, text, hevent⟩ := hms m (.head ms)
    rw [ih hrest fun m' hm' ↦ hms m' (.tail m hm')]
    exact h.same_of_report (.head ms) hevent

end Walk

/-- **Every run that comes to its end is a walk.** -/
theorem exists_walk {program : Program α} {s s' : σ} {a : α} {es : List Event}
    (h : p.run program s = ⟨es, .returned a s'⟩) :
    ∃ ms, ms.map Moment.event = es ∧ p.Walk s ms s' := by
  induction program generalizing s es with
  | done b =>
    obtain ⟨rfl, hout⟩ := Run.mk.inj h
    obtain ⟨-, rfl⟩ := Outcome.returned.inj hout
    exact ⟨[], rfl, .rest _⟩
  | fault f => exact nomatch (Run.mk.inj h).2
  | exhausted => exact nomatch (Run.mk.inj h).2
  | step action next ih =>
    rw [run_step] at h
    cases hanswer : p.answer action s with
    | error f => rw [hanswer] at h; exact nomatch (Run.mk.inj h).2
    | ok r =>
      rw [hanswer] at h
      obtain ⟨rfl, hout⟩ := Run.mk.inj h
      obtain ⟨ms, hms, hwalk⟩ := ih r.1 (congrArg (Run.mk _) hout)
      exact ⟨⟨s, .ofReply action r.1, r.2⟩ :: ms, congrArg _ hms, .step hanswer hwalk⟩

/-! ## Drivers that are run to their end -/

/-- The driver, run in one state with some verbosity and some calls of the hart, goes through these
moments, ends with this value and leaves the hardware in the other state. -/
def Completes (p : Platform σ) (x : Driver α) (s : σ) (ms : List (Moment σ)) (a : α) (s' : σ) :
    Prop :=
  ∃ v n n', p.run (x.program v n) s = ⟨ms.map Moment.event, .returned (a, n') s'⟩ ∧ p.Walk s ms s'

/-- A run that comes to its end has moments. -/
theorem completes_of_run {x : Driver α} {v : Verbosity} {n n' : Nat} {s s' : σ} {a : α}
    {es : List Event} (h : p.run (x.program v n) s = ⟨es, .returned (a, n') s'⟩) :
    ∃ ms, ms.map Moment.event = es ∧ p.Completes x s ms a s' := by
  obtain ⟨ms, rfl, hwalk⟩ := exists_walk h
  exact ⟨ms, rfl, v, n, n', h, hwalk⟩

namespace Completes

variable {x : Driver α} {s s' : σ} {ms : List (Moment σ)} {a : α}

theorem walk (h : p.Completes x s ms a s') : p.Walk s ms s' := by
  obtain ⟨v, n, n', -, hwalk⟩ := h
  exact hwalk

theorem does (h : p.Completes x s ms a s') :
    ∃ v n n', x.Does v n (ms.map Moment.event) a n' := by
  obtain ⟨v, n, n', hrun, -⟩ := h
  exact ⟨v, n, n', .of_run hrun⟩

end Completes
end Platform
end TileEvents
