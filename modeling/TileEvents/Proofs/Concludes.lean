import TileEvents.Platform.Basic
import TileEvents.Program.Driver

/-!
# Drivers that come to their end

`Ends` says what a driver ends with if it ends.  `Concludes` says that it does end: whatever the
hardware replies, the driver neither breaks off nor runs out of calls of the hart.  A run of such a
driver can then only break off where the hardware does (`Program.Concludes.run`), and on hardware
that answers everything it returns.

A loop comes to its end if its turns do and keep an invariant of its state and of the calls that are
left; that it goes round only so often was settled when the loop was made (`Driver.Descends`).
-/

set_option autoImplicit false

namespace TileEvents

namespace Program

variable {α β : Type}

/-- Whatever the hardware replies, the program ends, and with a value that satisfies `P`. -/
def Concludes (P : α → Prop) : Program α → Prop
  | done a => P a
  | fault _ => False
  | exhausted => False
  | step _ next => ∀ r, (next r).Concludes P

theorem Concludes.mono {P Q : α → Prop} (h : ∀ a, P a → Q a) {p : Program α}
    (hp : p.Concludes P) : p.Concludes Q := by
  induction p with
  | done a => exact h a hp
  | fault f => exact hp
  | exhausted => exact hp
  | step action next ih => exact fun r ↦ ih r (hp r)

theorem concludes_bind {P : β → Prop} {k : α → Program β} {p : Program α} :
    (p.bind k).Concludes P ↔ p.Concludes fun a ↦ (k a).Concludes P := by
  induction p with
  | done a => exact Iff.rfl
  | fault f => exact Iff.rfl
  | exhausted => exact Iff.rfl
  | step action next ih => exact forall_congr' ih

/-- What a program can end with, it does end with. -/
theorem Concludes.and_ends {P Q : α → Prop} {p : Program α} (hp : p.Concludes P)
    (hq : p.Ends Q) : p.Concludes fun a ↦ P a ∧ Q a := by
  induction p with
  | done a => exact ⟨hp, hq⟩
  | fault f => exact hp
  | exhausted => exact hp
  | step action next ih => exact fun r ↦ ih r (hp r) (hq r)

/-- **A program that comes to its end breaks off only where the hardware does.** -/
theorem Concludes.run {σ : Type} (hardware : Platform σ) {P : α → Prop} {p : Program α}
    (h : p.Concludes P) (s : σ) :
    (∃ a s', P a ∧ (hardware.run p s).outcome = .returned a s') ∨
      ∃ f action s', (hardware.run p s).outcome = .faulted f ∧
        hardware.answer action s' = .error f := by
  induction p generalizing s with
  | done a => exact .inl ⟨a, s, h, rfl⟩
  | fault f => exact h.elim
  | exhausted => exact h.elim
  | step action next ih =>
    rw [Platform.run_step]
    cases hanswer : hardware.answer action s with
    | error f => exact .inr ⟨f, action, s, rfl, hanswer⟩
    | ok r => exact ih r.1 (h r.1) r.2

end Program

namespace Driver

variable {α β σ : Type} {v : Verbosity} {n : Nat}

/-- Whatever the hardware replies, the driver, with `n` calls of the hart left, ends, and what it
ends with and the calls that are left then are related. -/
def Concludes (x : Driver α) (v : Verbosity) (n : Nat) (P : α → Nat → Prop) : Prop :=
  (x.program v n).Concludes fun r ↦ P r.1 r.2

theorem Concludes.mono {x : Driver α} {P Q : α → Nat → Prop} (hx : x.Concludes v n P)
    (h : ∀ a n', P a n' → Q a n') : x.Concludes v n Q :=
  Program.Concludes.mono (fun r : α × Nat ↦ h r.1 r.2) hx

theorem concludes_pure {a : α} {P : α → Nat → Prop} (h : P a n) :
    (pure a : Driver α).Concludes v n P :=
  h

theorem Concludes.bind {x : Driver α} {f : α → Driver β} {P : α → Nat → Prop}
    {Q : β → Nat → Prop} (hx : x.Concludes v n P)
    (hf : ∀ a n', P a n' → (f a).Concludes v n' Q) : (x >>= f).Concludes v n Q := by
  rw [Concludes, bind_program, Program.concludes_bind]
  exact Program.Concludes.mono (fun r : α × Nat ↦ hf r.1 r.2) hx

theorem concludes_read (w : Window) (offset : Nat) :
    (read w offset).Concludes v n fun _ n' ↦ n' = n :=
  fun _ ↦ rfl

theorem concludes_write (w : Window) (offset : Nat) (value : UInt32) :
    (write w offset value).Concludes v n fun _ n' ↦ n' = n :=
  fun _ ↦ rfl

/-- A delay needs a call of the hart. -/
theorem concludes_spin (cycles : UInt32) :
    (spin cycles).Concludes v (n + 1) fun _ n' ↦ n' = n :=
  fun _ ↦ rfl

theorem concludes_report (s : Severity) (text : Unit → String) :
    (report s text).Concludes v n fun _ n' ↦ n' = n := by
  rw [Concludes, program, report]
  split
  · exact fun _ ↦ rfl
  · exact rfl

/-- **A loop comes to its end** if its turns do and each one that goes on keeps the invariant. -/
theorem concludes_loop {μ : σ → Nat} {body : σ → Driver (Turn σ α)} (hd : Descends μ body)
    {I : σ → Nat → Prop} {Q : α → Nat → Prop}
    (h : ∀ s n, I s n → (body s).Concludes v n fun turn n' ↦
      match turn with
      | .again s' => I s' n'
      | .stop a => Q a n')
    {s : σ} (hs : I s n) : (loop μ body s).Concludes v n Q := by
  induction hk : n + μ s using Nat.strongRecOn generalizing s n with
  | _ k ih =>
    have hturn := Program.Concludes.and_ends (h s n hs) (hd s v n)
    rw [loop_eq hd, Concludes, bind_program, Program.concludes_bind]
    refine Program.Concludes.mono (fun r hr ↦ ?_) hturn
    obtain ⟨turn, n'⟩ := r
    cases turn with
    | again s' => exact ih (n' + μ s') (hk ▸ hr.2 s' rfl) hr.1 rfl
    | stop a => exact hr.1

end Driver
end TileEvents
