import TileEvents.Program.Basic

/-!
# Running programs

A `Platform` is a hardware with a state: it answers each action with a reply and a next state, or
breaks off.  `Platform.run` runs a program on it and gives the events of the run, in order, and how
it ended.

Running one program after another is running the first, and the second from the state it left
(`run_bind`).
-/

set_option autoImplicit false

namespace TileEvents

/-- Hardware, and the hart that drives it. -/
structure Platform (σ : Type) where
  /-- Reads a register. -/
  read : Window → Nat → σ → Except Fault (UInt32 × σ)
  /-- Writes a register. -/
  write : Window → Nat → UInt32 → σ → Except Fault σ
  /-- Lets the hart spin. -/
  spin : UInt32 → σ → Except Fault σ
  /-- Puts the hart to sleep. -/
  suspend : σ → Except Fault σ

/-- Something that happened in a run. -/
inductive Event
  | read (window : Window) (offset : Nat) (value : UInt32)
  | write (window : Window) (offset : Nat) (value : UInt32)
  | spin (cycles : UInt32)
  | suspend
  | report (severity : Severity) (text : String)
deriving DecidableEq

/-- The event that an action and its reply are. -/
def Event.ofReply : (action : Action) → action.Reply → Event
  | .read w o, value => .read w o value
  | .write w o value, _ => .write w o value
  | .spin cycles, _ => .spin cycles
  | .suspend, _ => .suspend
  | .report s text, _ => .report s text

/-- How a run ended. -/
inductive Outcome (σ α : Type)
  /-- The program ended, with a value and the hardware in a state. -/
  | returned (value : α) (state : σ)
  | faulted (why : Fault)
  | exhausted

/-- What happened in a run, and how it ended. -/
structure Run (σ α : Type) where
  events : List Event
  outcome : Outcome σ α

namespace Run

variable {σ α β : Type}

/-- The run with events before it. -/
def after (past : List Event) (r : Run σ α) : Run σ α := ⟨past ++ r.events, r.outcome⟩

/-- Goes on where a run ended, if it ended well. -/
def bind (r : Run σ α) (k : α → σ → Run σ β) : Run σ β :=
  match r.outcome with
  | .returned a s => (k a s).after r.events
  | .faulted f => ⟨r.events, .faulted f⟩
  | .exhausted => ⟨r.events, .exhausted⟩

@[simp] theorem after_after (p q : List Event) (r : Run σ α) :
    (r.after q).after p = r.after (p ++ q) := by
  simp [after, List.append_assoc]

theorem after_bind (p : List Event) (r : Run σ α) (k : α → σ → Run σ β) :
    (r.after p).bind k = (r.bind k).after p := by
  rcases r with ⟨es, _ | _ | _⟩ <;> simp [after, bind, List.append_assoc]

end Run

namespace Platform

variable {σ α β : Type}

/-- What the platform answers to an action.  A record is for the reader: no platform notices it. -/
def answer (p : Platform σ) : (action : Action) → σ → Except Fault (action.Reply × σ)
  | .read w o, s => p.read w o s
  | .write w o value, s => (p.write w o value s).map fun s' ↦ ((), s')
  | .spin cycles, s => (p.spin cycles s).map fun s' ↦ ((), s')
  | .suspend, s => (p.suspend s).map fun s' ↦ ((), s')
  | .report _ _, s => .ok ((), s)

theorem answer_write_iff {p : Platform σ} {w : Window} {o : Nat} {value : UInt32} {s s' : σ}
    {u : Unit} : p.answer (.write w o value) s = .ok (u, s') ↔ p.write w o value s = .ok s' := by
  rw [answer]
  cases p.write w o value s <;> simp [Except.map]

theorem answer_spin_iff {p : Platform σ} {cycles : UInt32} {s s' : σ} {u : Unit} :
    p.answer (.spin cycles) s = .ok (u, s') ↔ p.spin cycles s = .ok s' := by
  rw [answer]
  cases p.spin cycles s <;> simp [Except.map]

theorem answer_suspend_iff {p : Platform σ} {s s' : σ} {u : Unit} :
    p.answer .suspend s = .ok (u, s') ↔ p.suspend s = .ok s' := by
  rw [answer]
  cases p.suspend s <;> simp [Except.map]

/-- Runs a program to which some events, the last one first, have happened already. -/
def runAfter (p : Platform σ) : List Event → Program α → σ → Run σ α
  | past, .done a, s => ⟨past.reverse, .returned a s⟩
  | past, .fault f, _ => ⟨past.reverse, .faulted f⟩
  | past, .exhausted, _ => ⟨past.reverse, .exhausted⟩
  | past, .step action next, s =>
    match p.answer action s with
    | .error f => ⟨past.reverse, .faulted f⟩
    | .ok (reply, s') => p.runAfter (.ofReply action reply :: past) (next reply) s'

/-- Runs a program from a state. -/
def run (p : Platform σ) (program : Program α) (s : σ) : Run σ α := p.runAfter [] program s

/-! ## The equations of a run -/

theorem runAfter_eq (p : Platform σ) (past : List Event) (program : Program α) (s : σ) :
    p.runAfter past program s = (p.run program s).after past.reverse := by
  induction program generalizing past s with
  | done a => simp [runAfter, run, Run.after]
  | fault f => simp [runAfter, run, Run.after]
  | exhausted => simp [runAfter, run, Run.after]
  | step action next ih =>
    rw [runAfter, run, runAfter]
    cases p.answer action s with
    | error f => simp [Run.after]
    | ok r =>
      dsimp only
      rw [ih, ih _ [_]]
      simp

@[simp] theorem run_done (p : Platform σ) (a : α) (s : σ) :
    p.run (.done a) s = ⟨[], .returned a s⟩ := rfl

@[simp] theorem run_fault (p : Platform σ) (f : Fault) (s : σ) :
    p.run (.fault f : Program α) s = ⟨[], .faulted f⟩ := rfl

@[simp] theorem run_exhausted (p : Platform σ) (s : σ) :
    p.run (.exhausted : Program α) s = ⟨[], .exhausted⟩ := rfl

theorem run_step (p : Platform σ) (action : Action) (next : action.Reply → Program α) (s : σ) :
    p.run (.step action next) s =
      match p.answer action s with
      | .error f => ⟨[], .faulted f⟩
      | .ok (reply, s') => (p.run (next reply) s').after [.ofReply action reply] := by
  rw [run, runAfter]
  cases p.answer action s with
  | error f => rfl
  | ok r => exact p.runAfter_eq _ _ _

/-- A program that takes one action and ends. -/
theorem run_act_iff {p : Platform σ} {action : Action} {f : action.Reply → α} {s s' : σ} {a : α} :
    (p.run (.step action fun r ↦ .done (f r)) s).outcome = .returned a s' ↔
      ∃ r, p.answer action s = .ok (r, s') ∧ f r = a := by
  rw [run_step]
  rcases p.answer action s with why | ⟨r, s₁⟩
  · simp
  · simp only [run_done, Run.after, Outcome.returned.injEq, Except.ok.injEq, Prod.mk.injEq]
    constructor
    · rintro ⟨rfl, rfl⟩
      exact ⟨r, ⟨rfl, rfl⟩, rfl⟩
    · rintro ⟨_, ⟨rfl, rfl⟩, rfl⟩
      exact ⟨rfl, rfl⟩

/-- **Running one program after another.** -/
theorem run_bind (p : Platform σ) (program : Program α) (k : α → Program β) (s : σ) :
    p.run (program.bind k) s = (p.run program s).bind fun a s' ↦ p.run (k a) s' := by
  induction program generalizing s with
  | done a => rfl
  | fault f => rfl
  | exhausted => rfl
  | step action next ih =>
    rw [Program.bind, run_step, run_step]
    cases p.answer action s with
    | error f => rfl
    | ok r =>
      dsimp only
      rw [ih, Run.after_bind]

end Platform
end TileEvents
