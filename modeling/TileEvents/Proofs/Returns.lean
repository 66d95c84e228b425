import TileEvents.Platform.Basic
import TileEvents.Program.Driver

/-!
# Drivers that return

`Platform.Returns` says that a driver comes to its end on a hardware, with which value, how many
calls of the hart it has left, and what has become of the hardware.  Unlike a path it excludes that
the run breaks off or runs out of calls.  There is one rule for each way to put drivers together.
-/

set_option autoImplicit false

namespace TileEvents
namespace Platform

variable {σ α β ι : Type} {p : Platform σ} {v : Verbosity} {n n₁ n' : Nat} {s s₁ s' : σ}

/-- Run in a state and with some calls left, the driver ends with this value, these calls and in
this state. -/
def Returns (p : Platform σ) (x : Driver α) (v : Verbosity) (n : Nat) (s : σ) (a : α) (n' : Nat)
    (s' : σ) : Prop :=
  (p.run (x.program v n) s).outcome = .returned (a, n') s'

theorem returns_pure (a : α) : p.Returns (pure a) v n s a n s := rfl

theorem Returns.bind {x : Driver α} {f : α → Driver β} {a : α} {b : β}
    (hx : p.Returns x v n s a n₁ s₁) (hf : p.Returns (f a) v n₁ s₁ b n' s') :
    p.Returns (x >>= f) v n s b n' s' := by
  rw [Returns, Driver.bind_program, run_bind]
  rcases hrun : p.run (x.program v n) s with ⟨es, outcome⟩
  rw [Returns, hrun] at hx
  subst hx
  exact hf

/-- A run has one end. -/
theorem Returns.unique {x : Driver α} {a b : α} {n'' : Nat} {s'' : σ}
    (h : p.Returns x v n s a n' s') (h' : p.Returns x v n s b n'' s'') :
    a = b ∧ n' = n'' ∧ s' = s'' := by
  obtain ⟨hvalue, hstate⟩ := Outcome.returned.inj (h.symm.trans h')
  exact ⟨congrArg Prod.fst hvalue, congrArg Prod.snd hvalue, hstate⟩

/-- A driver that returns has returned from each of its parts. -/
theorem returns_bind_iff {x : Driver α} {f : α → Driver β} {b : β} :
    p.Returns (x >>= f) v n s b n' s' ↔
      ∃ a n₁ s₁, p.Returns x v n s a n₁ s₁ ∧ p.Returns (f a) v n₁ s₁ b n' s' := by
  refine ⟨fun h ↦ ?_, fun ⟨a, n₁, s₁, hx, hf⟩ ↦ hx.bind hf⟩
  rw [Returns, Driver.bind_program, run_bind] at h
  rcases hrun : p.run (x.program v n) s with ⟨es, ⟨⟨a, n₁⟩, s₁⟩ | f | _⟩
  · rw [hrun] at h
    exact ⟨a, n₁, s₁, congrArg Run.outcome hrun, h⟩
  · simp [hrun, Run.bind] at h
  · simp [hrun, Run.bind] at h

/-- What is known to return first can be left out. -/
theorem Returns.bind_iff {x : Driver α} {f : α → Driver β} {a : α} {b : β}
    (hx : p.Returns x v n s a n₁ s₁) :
    p.Returns (x >>= f) v n s b n' s' ↔ p.Returns (f a) v n₁ s₁ b n' s' := by
  refine ⟨fun h ↦ ?_, hx.bind⟩
  obtain ⟨a', n₂, s₂, hx', hf⟩ := returns_bind_iff.1 h
  obtain ⟨rfl, rfl, rfl⟩ := hx.unique hx'
  exact hf

/-! ## Single actions -/

theorem returns_read_iff {w : Window} {o : Nat} {value : UInt32} :
    p.Returns (Driver.read w o) v n s value n' s' ↔ n' = n ∧ p.read w o s = .ok (value, s') := by
  refine run_act_iff.trans ?_
  constructor
  · rintro ⟨r, hread, hend⟩
    obtain ⟨rfl, rfl⟩ := Prod.mk.inj hend
    exact ⟨rfl, hread⟩
  · rintro ⟨rfl, hread⟩
    exact ⟨value, hread, rfl⟩

theorem returns_read {w : Window} {o : Nat} {value : UInt32} (h : p.read w o s = .ok (value, s')) :
    p.Returns (Driver.read w o) v n s value n s' :=
  returns_read_iff.2 ⟨rfl, h⟩

theorem returns_write_iff {w : Window} {o : Nat} {value : UInt32} :
    p.Returns (Driver.write w o value) v n s () n' s' ↔
      n' = n ∧ p.write w o value s = .ok s' := by
  refine run_act_iff.trans ?_
  constructor
  · rintro ⟨r, hanswer, hend⟩
    exact ⟨(Prod.mk.inj hend).2.symm, answer_write_iff.1 hanswer⟩
  · rintro ⟨rfl, hwrite⟩
    exact ⟨(), answer_write_iff.2 hwrite, rfl⟩

/-- A delay costs a call of the hart. -/
theorem returns_spin_iff {cycles : UInt32} :
    p.Returns (Driver.spin cycles) v n s () n' s' ↔ n = n' + 1 ∧ p.spin cycles s = .ok s' := by
  cases n with
  | zero => simp [Returns, Driver.program, Driver.spin]
  | succ n =>
    refine run_act_iff.trans ?_
    constructor
    · rintro ⟨r, hanswer, hend⟩
      exact ⟨congrArg (· + 1) (Prod.mk.inj hend).2, answer_spin_iff.1 hanswer⟩
    · rintro ⟨hn, hspin⟩
      exact ⟨(), answer_spin_iff.2 hspin, congrArg (Prod.mk ()) (Nat.succ.inj hn)⟩

/-- A sleep costs a call of the hart. -/
theorem returns_suspend_iff :
    p.Returns Driver.suspend v n s () n' s' ↔ n = n' + 1 ∧ p.suspend s = .ok s' := by
  cases n with
  | zero => simp [Returns, Driver.program, Driver.suspend]
  | succ n =>
    refine run_act_iff.trans ?_
    constructor
    · rintro ⟨r, hanswer, hend⟩
      exact ⟨congrArg (· + 1) (Prod.mk.inj hend).2, answer_suspend_iff.1 hanswer⟩
    · rintro ⟨hn, hsuspend⟩
      exact ⟨(), answer_suspend_iff.2 hsuspend, congrArg (Prod.mk ()) (Nat.succ.inj hn)⟩

theorem returns_report (severity : Severity) (text : Unit → String) :
    p.Returns (Driver.report severity text) v n s () n s := by
  rw [Returns, Driver.program, Driver.report]
  split
  · rw [run_step]
    rfl
  · rfl

theorem returns_reports (severity : Severity) :
    p.Returns (Driver.reports severity) v n s (v.admits severity) n s := rfl

section Loops

variable {μ : ι → Nat} {body : ι → Driver (Driver.Turn ι α)} {i i' : ι} {a : α}

theorem Returns.loop_again (h : Driver.Descends μ body)
    (hturn : p.Returns (body i) v n s (.again i') n₁ s₁)
    (hrest : p.Returns (Driver.loop μ body i') v n₁ s₁ a n' s') :
    p.Returns (Driver.loop μ body i) v n s a n' s' := by
  rw [Driver.loop_eq h]
  exact hturn.bind hrest

theorem Returns.loop_stop (h : Driver.Descends μ body)
    (hturn : p.Returns (body i) v n s (.stop a) n' s') :
    p.Returns (Driver.loop μ body i) v n s a n' s' := by
  rw [Driver.loop_eq h]
  exact hturn.bind (returns_pure a)

/-- A loop stops after one turn, or goes on after it. -/
theorem returns_loop_iff (h : Driver.Descends μ body) :
    p.Returns (Driver.loop μ body i) v n s a n' s' ↔
      p.Returns (body i) v n s (.stop a) n' s' ∨
        ∃ i' n₁ s₁, p.Returns (body i) v n s (.again i') n₁ s₁ ∧
          p.Returns (Driver.loop μ body i') v n₁ s₁ a n' s' := by
  constructor
  · intro hloop
    rw [Driver.loop_eq h] at hloop
    obtain ⟨turn, n₁, s₁, hturn, hrest⟩ := returns_bind_iff.1 hloop
    cases turn with
    | again i' => exact .inr ⟨i', n₁, s₁, hturn, hrest⟩
    | stop b =>
      obtain ⟨rfl, rfl, rfl⟩ := hrest.unique (returns_pure b)
      exact .inl hturn
  · rintro (hstop | ⟨i', n₁, s₁, hturn, hrest⟩)
    · exact .loop_stop h hstop
    · exact .loop_again h hturn hrest

/-- **What the turns of a loop keep holds where it stops.** -/
theorem Returns.of_loop {I : ι → σ → Prop} {Q : α → σ → Prop}
    (hagain : ∀ i n s i' n₁ s₁, I i s → p.Returns (body i) v n s (.again i') n₁ s₁ → I i' s₁)
    (hstop : ∀ i n s a n₁ s₁, I i s → p.Returns (body i) v n s (.stop a) n₁ s₁ → Q a s₁)
    (h : p.Returns (Driver.loop μ body i) v n s a n' s') (hi : I i s) : Q a s' := by
  have key : ∀ (turns : Nat) (i : ι) (n : Nat) (s : σ), I i s →
      p.Returns (Driver.iterate body turns i) v n s a n' s' → Q a s' := by
    intro turns
    induction turns with
    | zero => exact fun i n s _ h ↦ by simp [Returns, Driver.iterate, Driver.program,
        Driver.exhausted] at h
    | succ turns ih =>
      intro i n s hi h
      rw [Driver.iterate] at h
      obtain ⟨turn, n₁, s₁, hturn, hrest⟩ := returns_bind_iff.1 h
      cases turn with
      | again i' => exact ih i' n₁ s₁ (hagain i n s i' n₁ s₁ hi hturn) hrest
      | stop b =>
        obtain ⟨rfl, rfl, rfl⟩ := hrest.unique (returns_pure b)
        exact hstop i n s _ _ _ hi hturn
  exact key _ i n s hi h

end Loops
end Platform
end TileEvents
