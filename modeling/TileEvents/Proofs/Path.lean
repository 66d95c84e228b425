import TileEvents.Platform.Basic
import TileEvents.Program.Driver

/-!
# The paths of a program

A program is a tree: it branches wherever the hardware replies.  A run that comes to its end has
taken one path through that tree, and `Program.Path` is the paths: the events in their order and
the value at the end.  What holds of every path holds of every run on every hardware
(`Program.Path.of_run`), so a law about what a driver does to any hardware is a law about paths and
says nothing of platforms.

Paths are put together as programs are.  A path through one program after another is a path through
the first and then one through the second (`Program.path_bind_iff`), and what the paths of a loop
have in common is found by induction on its turns (`Driver.does_loop`).
-/

set_option autoImplicit false

namespace TileEvents

namespace Program

variable {α β : Type}

/-- On some hardware the program goes through these events and ends with this value. -/
inductive Path : Program α → List Event → α → Prop
  | done (a : α) : Path (.done a) [] a
  | step {action : Action} {next : action.Reply → Program α} {es : List Event} {a : α}
      (r : action.Reply) (h : Path (next r) es a) :
      Path (.step action next) (.ofReply action r :: es) a

@[simp] theorem path_done_iff {a b : α} {es : List Event} :
    (done a).Path es b ↔ es = [] ∧ b = a := by
  constructor
  · rintro ⟨⟩
    exact ⟨rfl, rfl⟩
  · rintro ⟨rfl, rfl⟩
    exact .done b

@[simp] theorem not_path_fault {f : Fault} {es : List Event} {a : α} :
    ¬ (fault f : Program α).Path es a :=
  nofun

@[simp] theorem not_path_exhausted {es : List Event} {a : α} :
    ¬ (exhausted : Program α).Path es a :=
  nofun

theorem path_step_iff {action : Action} {next : action.Reply → Program α} {es : List Event}
    {a : α} : (step action next).Path es a ↔
      ∃ r es', es = .ofReply action r :: es' ∧ (next r).Path es' a := by
  constructor
  · rintro ⟨⟩
    exact ⟨_, _, rfl, by assumption⟩
  · rintro ⟨r, es', rfl, h⟩
    exact .step r h

/-- A program that takes one action and ends. -/
theorem path_act_iff {action : Action} {f : action.Reply → α} {es : List Event} {a : α} :
    (step action fun r ↦ done (f r)).Path es a ↔ ∃ r, es = [.ofReply action r] ∧ a = f r := by
  rw [path_step_iff]
  constructor
  · rintro ⟨r, es', rfl, h⟩
    obtain ⟨rfl, rfl⟩ := path_done_iff.1 h
    exact ⟨r, rfl, rfl⟩
  · rintro ⟨r, rfl, rfl⟩
    exact ⟨r, [], rfl, .done _⟩

/-- **A path through one program after another is a path through each.** -/
theorem path_bind_iff {p : Program α} {k : α → Program β} {es : List Event} {b : β} :
    (p.bind k).Path es b ↔ ∃ es₁ a es₂, es = es₁ ++ es₂ ∧ p.Path es₁ a ∧ (k a).Path es₂ b := by
  induction p generalizing es with
  | done a =>
    constructor
    · exact fun h ↦ ⟨[], a, es, rfl, .done a, h⟩
    · rintro ⟨es₁, a', es₂, rfl, h₁, h₂⟩
      obtain ⟨rfl, rfl⟩ := path_done_iff.1 h₁
      exact h₂
  | fault f => simp [Program.bind]
  | exhausted => simp [Program.bind]
  | step action next ih =>
    rw [Program.bind, path_step_iff]
    constructor
    · rintro ⟨r, es', rfl, h⟩
      obtain ⟨es₁, a, es₂, rfl, h₁, h₂⟩ := (ih r).1 h
      exact ⟨.ofReply action r :: es₁, a, es₂, rfl, .step r h₁, h₂⟩
    · rintro ⟨es₁, a, es₂, rfl, h₁, h₂⟩
      obtain ⟨r, es', rfl, h⟩ := path_step_iff.1 h₁
      exact ⟨r, es' ++ es₂, rfl, (ih r).2 ⟨es', a, es₂, rfl, h, h₂⟩⟩

/-- **Every run that comes to its end has taken a path.** -/
theorem Path.of_run {σ : Type} {hardware : Platform σ} {p : Program α} {s s' : σ} {a : α}
    {es : List Event} (h : hardware.run p s = ⟨es, .returned a s'⟩) : p.Path es a := by
  induction p generalizing s es with
  | done b =>
    obtain ⟨rfl, hout⟩ := Run.mk.inj h
    obtain ⟨rfl, -⟩ := Outcome.returned.inj hout
    exact .done _
  | fault f => exact nomatch (Run.mk.inj h).2
  | exhausted => exact nomatch (Run.mk.inj h).2
  | step action next ih =>
    rw [Platform.run_step] at h
    cases hanswer : hardware.answer action s with
    | error f => rw [hanswer] at h; exact nomatch (Run.mk.inj h).2
    | ok r =>
      rw [hanswer] at h
      obtain ⟨rfl, hout⟩ := Run.mk.inj h
      exact .step r.1 (ih r.1 (congrArg (Run.mk _) hout))

end Program

namespace Driver

variable {α β σ : Type} {v : Verbosity}

/-- On some hardware the driver, with `n` calls of the hart left, goes through these events, ends
with this value and has `n'` calls left. -/
def Does (x : Driver α) (v : Verbosity) (n : Nat) (es : List Event) (a : α) (n' : Nat) : Prop :=
  (x.program v n).Path es (a, n')

@[simp] theorem does_pure_iff {a b : α} {n n' : Nat} {es : List Event} :
    (pure a : Driver α).Does v n es b n' ↔ es = [] ∧ b = a ∧ n' = n := by
  simp [Does]

@[simp] theorem does_bind_iff {x : Driver α} {f : α → Driver β} {n n' : Nat} {es : List Event}
    {b : β} : (x >>= f).Does v n es b n' ↔
      ∃ es₁ a n₁ es₂, es = es₁ ++ es₂ ∧ x.Does v n es₁ a n₁ ∧ (f a).Does v n₁ es₂ b n' := by
  rw [Does, bind_program, Program.path_bind_iff]
  constructor
  · rintro ⟨es₁, ⟨a, n₁⟩, es₂, rfl, h₁, h₂⟩
    exact ⟨es₁, a, n₁, es₂, rfl, h₁, h₂⟩
  · rintro ⟨es₁, a, n₁, es₂, rfl, h₁, h₂⟩
    exact ⟨es₁, (a, n₁), es₂, rfl, h₁, h₂⟩

/-- A driver whose value is only changed. -/
theorem does_bind_pure_iff {x : Driver α} {f : α → β} {n n' : Nat} {es : List Event} {b : β} :
    (x >>= fun a ↦ pure (f a)).Does v n es b n' ↔ ∃ a, b = f a ∧ x.Does v n es a n' := by
  rw [does_bind_iff]
  constructor
  · rintro ⟨es₁, a, n₁, es₂, rfl, hx, hp⟩
    obtain ⟨rfl, rfl, rfl⟩ := does_pure_iff.1 hp
    rw [List.append_nil]
    exact ⟨a, rfl, hx⟩
  · rintro ⟨a, rfl, hx⟩
    exact ⟨es, a, n', [], (List.append_nil es).symm, hx, does_pure_iff.2 ⟨rfl, rfl, rfl⟩⟩

theorem does_read_iff {w : Window} {offset n n' : Nat} {es : List Event} {value : UInt32} :
    (read w offset).Does v n es value n' ↔ es = [.read w offset value] ∧ n' = n := by
  rw [Does, program, read, Program.path_act_iff]
  constructor
  · rintro ⟨r, rfl, h⟩
    obtain ⟨rfl, rfl⟩ := Prod.mk.inj h
    exact ⟨rfl, rfl⟩
  · rintro ⟨rfl, rfl⟩
    exact ⟨value, rfl, rfl⟩

theorem does_write_iff {w : Window} {offset n n' : Nat} {es : List Event} {value : UInt32}
    {u : Unit} : (write w offset value).Does v n es u n' ↔
      es = [.write w offset value] ∧ n' = n := by
  rw [Does, program, write, Program.path_act_iff]
  simp [Event.ofReply]

theorem does_spin_iff {cycles : UInt32} {n n' : Nat} {es : List Event} {u : Unit} :
    (spin cycles).Does v n es u n' ↔ es = [.spin cycles] ∧ n = n' + 1 := by
  cases n with
  | zero => simp [Does, program, spin]
  | succ n =>
    show (Program.step _ fun _ ↦ .done ((), n)).Path es (u, n') ↔ _
    rw [Program.path_act_iff]
    simp [Event.ofReply, eq_comm]

theorem does_suspend_iff {n n' : Nat} {es : List Event} {u : Unit} :
    suspend.Does v n es u n' ↔ es = [.suspend] ∧ n = n' + 1 := by
  cases n with
  | zero => simp [Does, program, suspend]
  | succ n =>
    show (Program.step _ fun _ ↦ .done ((), n)).Path es (u, n') ↔ _
    rw [Program.path_act_iff]
    simp [Event.ofReply, eq_comm]

theorem not_does_fault {f : Fault} {n n' : Nat} {es : List Event} {a : α} :
    ¬ (fault f : Driver α).Does v n es a n' :=
  Program.not_path_fault

/-- A record is the only event there is when one is left. -/
theorem does_report_iff {s : Severity} {text : Unit → String} {n n' : Nat} {es : List Event}
    {u : Unit} : (report s text).Does v n es u n' ↔
      es = (if v.admits s then [.report s (text ())] else []) ∧ n' = n := by
  rw [Does, program, report]
  split
  · rw [Program.path_act_iff]
    simp [Event.ofReply]
  · simp

/-- **What the paths of a loop have in common**: it holds where a turn stops, and a turn that goes
on leads back to it from the next state. -/
theorem does_loop {μ : σ → Nat} {body : σ → Driver (Turn σ α)} {R : σ → List Event → α → Prop}
    (hstop : ∀ s n es a n', (body s).Does v n es (.stop a) n' → R s es a)
    (hagain : ∀ s n es s' n' es' a, (body s).Does v n es (.again s') n' → R s' es' a →
      R s (es ++ es') a)
    {s : σ} {n n' : Nat} {es : List Event} {a : α} (h : (loop μ body s).Does v n es a n') :
    R s es a := by
  have key : ∀ (turns : Nat) (s : σ) (n : Nat) (es : List Event),
      (iterate body turns s).Does v n es a n' → R s es a := by
    intro turns
    induction turns with
    | zero => exact fun s n es h ↦ absurd h Program.not_path_exhausted
    | succ turns ih =>
      intro s n es h
      rw [Does, iterate_succ, Program.path_bind_iff] at h
      obtain ⟨es₁, ⟨turn, n₁⟩, es₂, rfl, h₁, h₂⟩ := h
      cases turn with
      | again s' => exact hagain s n es₁ s' n₁ es₂ a h₁ (ih s' n₁ es₂ h₂)
      | stop b =>
        obtain ⟨rfl, hb⟩ := Program.path_done_iff.1 h₂
        obtain ⟨rfl, rfl⟩ := Prod.mk.inj hb
        rw [List.append_nil]
        exact hstop s n es₁ a n' h₁
  exact key _ s n es h

end Driver
end TileEvents
