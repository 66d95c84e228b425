import TileEvents.Proofs.Begins
import TileEvents.Proofs.Walk

/-!
# How far a run has come

`Platform.run` says what happened in a run, and nothing of an action that the hardware broke off.
But there are things that a driver must not do even if the hardware would not let it.
`Platform.Reaches` is a run up to any point: what has happened by then, and what is left to be run.
If an action comes next, then it is about to be taken (`Reaches.begins_next`).

Every run has a last point, where nothing is left or the hardware breaks off
(`exists_reaches_run`).
-/

set_option autoImplicit false

namespace TileEvents
namespace Platform

variable {σ α : Type} {p : Platform σ}

/-- A program, run in one state, goes through these moments to the other state, and there it is this
program that is left. -/
inductive Reaches (p : Platform σ) : Program α → σ → List (Moment σ) → Program α → σ → Prop
  | here (program : Program α) (s : σ) : Reaches p program s [] program s
  | step {action : Action} {next : action.Reply → Program α} {reply : action.Reply} {s s₁ s' : σ}
      {past : List (Moment σ)} {rest : Program α} (h : p.answer action s = .ok (reply, s₁))
      (hrest : Reaches p (next reply) s₁ past rest s') :
      Reaches p (.step action next) s (⟨s, .ofReply action reply, s₁⟩ :: past) rest s'

namespace Reaches

variable {program rest : Program α} {s s' : σ} {past : List (Moment σ)}

theorem walk (h : p.Reaches program s past rest s') : p.Walk s past s' := by
  induction h with
  | here program s => exact .rest s
  | step h _ ih => exact .step h ih

theorem begins (h : p.Reaches program s past rest s') :
    program.Begins (past.map Moment.event) := by
  induction h with
  | here program s => exact .here program
  | step _ _ ih => exact .step _ ih

/-- What comes next could be done, on some hardware. -/
theorem begins_next {action : Action} {next : action.Reply → Program α}
    (h : p.Reaches program s past rest s') (hrest : rest = .step action next)
    (reply : action.Reply) :
    program.Begins (past.map Moment.event ++ [.ofReply action reply]) := by
  induction h with
  | here program s =>
    subst hrest
    exact .step reply (.here _)
  | step _ _ ih => exact .step _ (ih hrest)

end Reaches

/-- How a run ends at the last point that it reaches. -/
inductive Ends (p : Platform σ) (s : σ) : Program α → Outcome σ α → Prop
  | done (a : α) : Ends p s (.done a) (.returned a s)
  | fault (why : Fault) : Ends p s (.fault why) (.faulted why)
  | exhausted : Ends p s .exhausted .exhausted
  /-- The hardware breaks off. -/
  | broken {action : Action} {next : action.Reply → Program α} {why : Fault}
      (h : p.answer action s = .error why) : Ends p s (.step action next) (.faulted why)

/-- **A run has a last point**, and by then all of it has happened. -/
theorem exists_reaches_run (p : Platform σ) (program : Program α) (s : σ) : ∃ past rest s',
    p.Reaches program s past rest s' ∧ (p.run program s).events = past.map Moment.event ∧
      p.Ends s' rest (p.run program s).outcome := by
  induction program generalizing s with
  | done a => exact ⟨[], _, s, .here _ _, rfl, .done a⟩
  | fault why => exact ⟨[], _, s, .here _ _, rfl, .fault why⟩
  | exhausted => exact ⟨[], _, s, .here _ _, rfl, .exhausted⟩
  | step action next ih =>
    rw [run_step]
    rcases hanswer : p.answer action s with why | ⟨reply, s₁⟩
    · exact ⟨[], _, s, .here _ _, rfl, .broken hanswer⟩
    · obtain ⟨past, rest, s', hreaches, hevents, hends⟩ := ih reply s₁
      exact ⟨_, rest, s', .step hanswer hreaches,
        congrArg (Event.ofReply action reply :: ·) hevents, hends⟩

end Platform
end TileEvents
