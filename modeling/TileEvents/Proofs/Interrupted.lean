import TileEvents.Proofs.Operations

/-!
# Runs that may be interrupted

A run of a driver that does not come to its end was interrupted: by the hardware, which may break
off at any access (`Platform.BreaksOff`), or for want of calls of the hart.  Nothing else can happen
to the operations that waits are built from, and here it is said of each what it has done by then.
-/

set_option autoImplicit false

namespace TileEvents
namespace Platform

variable {σ α ι : Type}

/-- The hardware breaks off with this fault. -/
def BreaksOff (p : Platform σ) (f : Fault) : Prop := ∃ action s, p.answer action s = .error f

/-- One action is taken, or the hardware breaks off. -/
theorem run_act (p : Platform σ) (action : Action) (f : action.Reply → α) (s : σ) :
    (∃ r s', p.run (.step action fun r ↦ .done (f r)) s =
        ⟨[.ofReply action r], .returned (f r) s'⟩) ∨
      ∃ why, p.run (.step action fun r ↦ .done (f r)) s = ⟨[], .faulted why⟩ ∧
        p.BreaksOff why := by
  rw [run_step]
  rcases hanswer : p.answer action s with why | ⟨r, s'⟩
  · exact .inr ⟨why, rfl, action, s, hanswer⟩
  · exact .inl ⟨r, s', rfl⟩

theorem run_write (p : Platform σ) (w : Window) (o : Nat) (value : UInt32) (v : Verbosity) (n : Nat)
    (s : σ) :
    (∃ s', p.run ((Driver.write w o value).program v n) s =
        ⟨[.write w o value], .returned ((), n) s'⟩) ∨
      ∃ why, p.run ((Driver.write w o value).program v n) s = ⟨[], .faulted why⟩ ∧
        p.BreaksOff why := by
  obtain ⟨r, s', h⟩ | h := p.run_act (.write w o value) (fun _ ↦ ((), n)) s
  · exact .inl ⟨s', h⟩
  · exact .inr h

theorem run_spin (p : Platform σ) (cycles : UInt32) (v : Verbosity) (n : Nat) (s : σ) :
    n = 0 ∧ p.run ((Driver.spin cycles).program v n) s = ⟨[], .exhausted⟩ ∨
      ∃ k, n = k + 1 ∧
        ((∃ s', p.run ((Driver.spin cycles).program v n) s =
            ⟨[.spin cycles], .returned ((), k) s'⟩) ∨
          ∃ why, p.run ((Driver.spin cycles).program v n) s = ⟨[], .faulted why⟩ ∧
            p.BreaksOff why) := by
  cases n with
  | zero => exact .inl ⟨rfl, rfl⟩
  | succ k =>
    refine .inr ⟨k, rfl, ?_⟩
    obtain ⟨r, s', h⟩ | h := p.run_act (.spin cycles) (fun _ ↦ ((), k)) s
    · exact .inl ⟨s', h⟩
    · exact .inr h

theorem run_suspend (p : Platform σ) (v : Verbosity) (n : Nat) (s : σ) :
    n = 0 ∧ p.run (Driver.suspend.program v n) s = ⟨[], .exhausted⟩ ∨
      ∃ k, n = k + 1 ∧
        ((∃ s', p.run (Driver.suspend.program v n) s = ⟨[.suspend], .returned ((), k) s'⟩) ∨
          ∃ why, p.run (Driver.suspend.program v n) s = ⟨[], .faulted why⟩ ∧
            p.BreaksOff why) := by
  cases n with
  | zero => exact .inl ⟨rfl, rfl⟩
  | succ k =>
    refine .inr ⟨k, rfl, ?_⟩
    obtain ⟨r, s', h⟩ | h := p.run_act .suspend (fun _ ↦ ((), k)) s
    · exact .inl ⟨s', h⟩
    · exact .inr h

/-- **A run of a loop** is a run of its body, and then of the loop again or of nothing. -/
theorem run_loop (p : Platform σ) {μ : ι → Nat} {body : ι → Driver (Driver.Turn ι α)}
    (h : Driver.Descends μ body) (i : ι) (v : Verbosity) (n : Nat) (s : σ) :
    p.run ((Driver.loop μ body i).program v n) s =
      (p.run ((body i).program v n) s).bind fun r s' ↦
        match r.1 with
        | .again i' => p.run ((Driver.loop μ body i').program v r.2) s'
        | .stop a => ⟨[], .returned (a, r.2) s'⟩ := by
  rw [Driver.loop_eq h, Driver.bind_program, run_bind]
  congr
  funext r s'
  obtain ⟨turn, n'⟩ := r
  cases turn <;> rfl

end Platform

namespace EventUnit

variable {σ : Type}

theorem run_readLines (p : Platform σ) (r : Register) (v : Verbosity) (n : Nat) (s : σ) :
    (∃ m s', p.run ((readLines r).program v n) s =
        ⟨[.read .eventUnit r.offset m.bits], .returned (m, n) s'⟩) ∨
      ∃ why, p.run ((readLines r).program v n) s = ⟨[], .faulted why⟩ ∧ p.BreaksOff why := by
  obtain ⟨value, s', h⟩ | h :=
    p.run_act (.read .eventUnit r.offset) (fun value ↦ (EventMask.mk value, n)) s
  · exact .inl ⟨⟨value⟩, s', h⟩
  · exact .inr h

/-- A look, and what it finds of the asked for lines taken down. -/
theorem run_take (p : Platform σ) (m : EventMask) (v : Verbosity) (n : Nat) (s : σ) : ∃ up,
    (∃ s', p.run ((take m).program v n) s = ⟨taking up m, .returned (up ∩ m, n) s'⟩) ∨
      ∃ es why, p.run ((take m).program v n) s = ⟨es, .faulted why⟩ ∧ es <+: [.look up] ∧
        p.BreaksOff why := by
  have htake : take m = readLines .bufferMasked >>= fun up ↦
      if (up ∩ m).isEmpty then pure (up ∩ m) else clear (up ∩ m) >>= fun _ ↦ pure (up ∩ m) := rfl
  rw [htake, Driver.bind_program, Platform.run_bind]
  obtain ⟨up, s₁, hlook⟩ | ⟨why, hlook, hwhy⟩ := run_readLines p .bufferMasked v n s
  · rw [hlook]
    refine ⟨up, ?_⟩
    rw [taking]
    dsimp only [Run.bind]
    split
    · exact .inl ⟨s₁, rfl⟩
    · rw [Driver.bind_program, Platform.run_bind, clear, writeRegister]
      obtain ⟨s₂, hclear⟩ | ⟨why, hclear, hwhy⟩ := p.run_write .eventUnit
        Register.bufferClear.offset (up ∩ m).bits v n s₁
      · rw [hclear]
        exact .inl ⟨s₂, rfl⟩
      · rw [hclear]
        exact .inr ⟨_, why, rfl, List.prefix_rfl, hwhy⟩
  · rw [hlook]
    exact ⟨∅, .inr ⟨[], why, rfl, List.nil_prefix, hwhy⟩⟩

end EventUnit
end TileEvents
