import TileEvents.Proofs.Path

/-!
# The beginnings of a program

A path is a run that has come to its end.  But a run may as well break off where the hardware does,
run out of calls of the hart, or never end, and what a driver must not do it must not do there
either.  `Program.Begins` is the events of a run up to any point: whatever becomes of a run, its
events are a beginning (`Program.begins_run`).

Beginnings are put together like paths: where one program runs after the other, the second begins
only when the first has come to its end (`Program.begins_bind_iff`).
-/

set_option autoImplicit false

namespace TileEvents

namespace Program

variable {α β : Type}

/-- On some hardware these are the first events of the program. -/
inductive Begins : Program α → List Event → Prop
  | here (p : Program α) : Begins p []
  | step {action : Action} {next : action.Reply → Program α} {es : List Event}
      (r : action.Reply) (h : Begins (next r) es) :
      Begins (.step action next) (.ofReply action r :: es)

theorem begins_done_iff {a : α} {es : List Event} : (done a).Begins es ↔ es = [] := by
  constructor
  · rintro ⟨⟩
    rfl
  · rintro rfl
    exact .here _

theorem begins_fault_iff {f : Fault} {es : List Event} :
    (fault f : Program α).Begins es ↔ es = [] := by
  constructor
  · rintro ⟨⟩
    rfl
  · rintro rfl
    exact .here _

theorem begins_exhausted_iff {es : List Event} :
    (exhausted : Program α).Begins es ↔ es = [] := by
  constructor
  · rintro ⟨⟩
    rfl
  · rintro rfl
    exact .here _

theorem begins_step_iff {action : Action} {next : action.Reply → Program α} {es : List Event} :
    (step action next).Begins es ↔
      es = [] ∨ ∃ r es', es = .ofReply action r :: es' ∧ (next r).Begins es' := by
  constructor
  · rintro ⟨⟩
    · exact .inl rfl
    · exact .inr ⟨_, _, rfl, by assumption⟩
  · rintro (rfl | ⟨r, es', rfl, h⟩)
    · exact .here _
    · exact .step r h

/-- What a program does to its end is a beginning. -/
theorem Path.begins {p : Program α} {es : List Event} {a : α} (h : p.Path es a) :
    p.Begins es := by
  induction h with
  | done a => exact .here _
  | step r _ ih => exact .step r ih

/-- **A program that runs after another one begins when that has ended.** -/
theorem begins_bind_iff {p : Program α} {k : α → Program β} {es : List Event} :
    (p.bind k).Begins es ↔
      p.Begins es ∨ ∃ es₁ a es₂, es = es₁ ++ es₂ ∧ p.Path es₁ a ∧ (k a).Begins es₂ := by
  induction p generalizing es with
  | done a =>
    constructor
    · exact fun h ↦ .inr ⟨[], a, es, rfl, .done a, h⟩
    · rintro (h | ⟨es₁, a', es₂, rfl, h₁, h₂⟩)
      · obtain rfl := begins_done_iff.1 h
        exact .here _
      · obtain ⟨rfl, rfl⟩ := path_done_iff.1 h₁
        exact h₂
  | fault f => simp [Program.bind, begins_fault_iff]
  | exhausted => simp [Program.bind, begins_exhausted_iff]
  | step action next ih =>
    rw [Program.bind, begins_step_iff, begins_step_iff]
    constructor
    · rintro (rfl | ⟨r, es', rfl, h⟩)
      · exact .inl (.inl rfl)
      · rcases (ih r).1 h with h | ⟨es₁, a, es₂, rfl, h₁, h₂⟩
        · exact .inl (.inr ⟨r, es', rfl, h⟩)
        · exact .inr ⟨.ofReply action r :: es₁, a, es₂, rfl, .step r h₁, h₂⟩
    · rintro ((rfl | ⟨r, es', rfl, h⟩) | ⟨es₁, a, es₂, rfl, h₁, h₂⟩)
      · exact .inl rfl
      · exact .inr ⟨r, es', rfl, (ih r).2 (.inl h)⟩
      · obtain ⟨r, es', rfl, h⟩ := path_step_iff.1 h₁
        exact .inr ⟨r, es' ++ es₂, rfl, (ih r).2 (.inr ⟨es', a, es₂, rfl, h, h₂⟩)⟩

/-- **Whatever becomes of a run, its events are a beginning.** -/
theorem begins_run {σ : Type} (hardware : Platform σ) (p : Program α) (s : σ) :
    p.Begins (hardware.run p s).events := by
  induction p generalizing s with
  | done a => exact .here _
  | fault f => exact .here _
  | exhausted => exact .here _
  | step action next ih =>
    rw [Platform.run_step]
    cases hardware.answer action s with
    | error f => exact .here _
    | ok r => exact .step r.1 (ih r.1 r.2)

end Program

namespace Driver

variable {α β σ : Type} {v : Verbosity} {n : Nat} {es : List Event}

/-- On some hardware these are the first events of the driver, with `n` calls of the hart left. -/
def Begins (x : Driver α) (v : Verbosity) (n : Nat) (es : List Event) : Prop :=
  (x.program v n).Begins es

theorem Does.begins {x : Driver α} {a : α} {n' : Nat} (h : x.Does v n es a n') :
    x.Begins v n es :=
  Program.Path.begins h

theorem begins_pure_iff {a : α} : (pure a : Driver α).Begins v n es ↔ es = [] :=
  Program.begins_done_iff

theorem begins_fault_iff {f : Fault} : (fault f : Driver α).Begins v n es ↔ es = [] :=
  Program.begins_fault_iff

theorem begins_bind_iff {x : Driver α} {f : α → Driver β} :
    (x >>= f).Begins v n es ↔ x.Begins v n es ∨
      ∃ es₁ a n₁ es₂, es = es₁ ++ es₂ ∧ x.Does v n es₁ a n₁ ∧ (f a).Begins v n₁ es₂ := by
  rw [Begins, bind_program, Program.begins_bind_iff]
  refine or_congr_right ⟨?_, ?_⟩
  · rintro ⟨es₁, ⟨a, n₁⟩, es₂, rfl, h₁, h₂⟩
    exact ⟨es₁, a, n₁, es₂, rfl, h₁, h₂⟩
  · rintro ⟨es₁, a, n₁, es₂, rfl, h₁, h₂⟩
    exact ⟨es₁, (a, n₁), es₂, rfl, h₁, h₂⟩

/-- A driver whose value is only changed. -/
theorem begins_bind_pure_iff {x : Driver α} {f : α → β} :
    (x >>= fun a ↦ pure (f a)).Begins v n es ↔ x.Begins v n es := by
  rw [begins_bind_iff, or_iff_left_iff_imp]
  rintro ⟨es₁, a, n₁, es₂, rfl, h₁, h₂⟩
  obtain rfl := begins_pure_iff.1 h₂
  rw [List.append_nil]
  exact h₁.begins

/-- A driver that takes one action has taken it or not. -/
theorem begins_act {action : Action} {f : action.Reply → α × Nat}
    (h : (Program.step action fun r ↦ .done (f r)).Begins es) :
    es = [] ∨ ∃ r, es = [.ofReply action r] := by
  rcases Program.begins_step_iff.1 h with rfl | ⟨r, es', rfl, hdone⟩
  · exact .inl rfl
  · obtain rfl := Program.begins_done_iff.1 hdone
    exact .inr ⟨r, rfl⟩

theorem begins_read {w : Window} {offset : Nat} (h : (read w offset).Begins v n es) :
    es = [] ∨ ∃ value, es = [.read w offset value] :=
  begins_act h

theorem begins_write {w : Window} {offset : Nat} {value : UInt32}
    (h : (write w offset value).Begins v n es) : es = [] ∨ es = [.write w offset value] := by
  rcases begins_act h with rfl | ⟨-, rfl⟩
  · exact .inl rfl
  · exact .inr rfl

theorem begins_spin {cycles : UInt32} (h : (spin cycles).Begins v n es) :
    es = [] ∨ es = [.spin cycles] := by
  cases n with
  | zero => exact .inl (Program.begins_exhausted_iff.1 h)
  | succ n =>
    rcases begins_act h with rfl | ⟨-, rfl⟩
    · exact .inl rfl
    · exact .inr rfl

theorem begins_suspend (h : suspend.Begins v n es) : es = [] ∨ es = [.suspend] := by
  cases n with
  | zero => exact .inl (Program.begins_exhausted_iff.1 h)
  | succ n =>
    rcases begins_act h with rfl | ⟨-, rfl⟩
    · exact .inl rfl
    · exact .inr rfl

theorem begins_report {s : Severity} {text : Unit → String} (h : (report s text).Begins v n es) :
    es = [] ∨ es = [.report s (text ())] := by
  rw [Begins, program, report] at h
  split at h
  · rcases begins_act h with rfl | ⟨-, rfl⟩
    · exact .inl rfl
    · exact .inr rfl
  · exact .inl (Program.begins_done_iff.1 h)

/-- **What the beginnings of a loop have in common**: it holds of the beginnings of a turn, and a
turn that goes on leads back to it from the next state. -/
theorem begins_loop {μ : σ → Nat} {body : σ → Driver (Turn σ α)} {R : σ → List Event → Prop}
    (hturn : ∀ s n es, (body s).Begins v n es → R s es)
    (hagain : ∀ s n es s' n' es', (body s).Does v n es (.again s') n' → R s' es' →
      R s (es ++ es'))
    {s : σ} (h : (loop μ body s).Begins v n es) : R s es := by
  have key : ∀ (turns : Nat) (s : σ) (n : Nat) (es : List Event),
      (iterate body turns s).Begins v n es → R s es := by
    intro turns
    induction turns with
    | zero =>
      intro s n es h
      obtain rfl := Program.begins_exhausted_iff.1 h
      exact hturn s n [] (.here _)
    | succ turns ih =>
      intro s n es h
      rw [Begins, iterate_succ, Program.begins_bind_iff] at h
      rcases h with h | ⟨es₁, ⟨turn, n₁⟩, es₂, rfl, h₁, h₂⟩
      · exact hturn s n es h
      · cases turn with
        | again s' => exact hagain s n es₁ s' n₁ es₂ h₁ (ih s' n₁ es₂ h₂)
        | stop b =>
          obtain rfl := Program.begins_done_iff.1 h₂
          rw [List.append_nil]
          exact hturn s n es₁ h₁.begins
  exact key _ s n es h

end Driver
end TileEvents
