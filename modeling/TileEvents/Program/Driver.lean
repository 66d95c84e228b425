import TileEvents.Program.Basic

/-!
# Writing drivers

A `Driver` is a program that knows how talkative it should be and how often it may still call the
hart.  Each `spin` and each `suspend` uses up one call; without a call left both are exhausted.
Everything else is free of charge.

## Loops

Every wait is a loop, and all of them are one combinator.  `loop μ body s` runs the body on the
state `s` until it says `stop`.  What bounds it is the number of calls left and the measure `μ` of
the state: each turn that does not stop must lower their sum, by calling the hart or by lowering
the measure.  For such a body the bound is never felt: `loop_eq` says that a loop is its body,
followed by the loop again or by nothing.  So drivers are reasoned about as if loops were unbounded
recursion, and still each of them is a finite program.

A record is made with `report`, which costs nothing, not even an action, when records of its
severity are not kept.
-/

set_option autoImplicit false

namespace TileEvents

/-- A program with a verbosity and a number of calls of the hart left. -/
abbrev Driver := ReaderT Verbosity (StateT Nat Program)

namespace Driver

variable {α β σ : Type}

/-- The program that a driver is, given a verbosity and a number of calls. -/
def program (x : Driver α) (verbosity : Verbosity) (calls : Nat) : Program (α × Nat) :=
  x verbosity calls

/-- The program without the calls that are left over. -/
def toProgram (x : Driver α) (verbosity : Verbosity) (calls : Nat) : Program α :=
  (x.program verbosity calls).bind fun r ↦ .done r.1

/-! ## What a driver can do -/

def read (w : Window) (offset : Nat) : Driver UInt32 := fun _ n ↦
  .step (.read w offset) fun value ↦ .done (value, n)

def write (w : Window) (offset : Nat) (value : UInt32) : Driver Unit := fun _ n ↦
  .step (.write w offset value) fun _ ↦ .done ((), n)

/-- Lets cycles pass: one call of the hart. -/
def spin (cycles : UInt32) : Driver Unit := fun _ n ↦
  match n with
  | 0 => .exhausted
  | n + 1 => .step (.spin cycles) fun _ ↦ .done ((), n)

/-- Sleeps until an event wakes the hart: one call of the hart. -/
def suspend : Driver Unit := fun _ n ↦
  match n with
  | 0 => .exhausted
  | n + 1 => .step .suspend fun _ ↦ .done ((), n)

/-- Breaks off. -/
def fault (why : Fault) : Driver α := fun _ _ ↦ .fault why

/-- Gives up for want of calls. -/
def exhausted : Driver α := fun _ _ ↦ .exhausted

/-- Records of this severity are kept. -/
def reports (s : Severity) : Driver Bool := fun v n ↦ .done (v.admits s, n)

/-- Leaves a record, if records of its severity are kept. -/
def report (s : Severity) (text : Unit → String) : Driver Unit := fun v n ↦
  if v.admits s then .step (.report s (text ())) fun _ ↦ .done ((), n) else .done ((), n)

@[simp] theorem pure_program (a : α) (v : Verbosity) (n : Nat) :
    (pure a : Driver α).program v n = .done (a, n) := rfl

@[simp] theorem bind_program (x : Driver α) (f : α → Driver β) (v : Verbosity) (n : Nat) :
    (x >>= f).program v n = (x.program v n).bind fun r ↦ (f r.1).program v r.2 := rfl

/-! ## What a driver can end with -/

/-- Whatever the hardware replies, the calls before, the value and the calls after are related. -/
def Ends (x : Driver α) (P : Nat → α → Nat → Prop) : Prop :=
  ∀ v n, (x.program v n).Ends fun r ↦ P n r.1 r.2

theorem Ends.mono {x : Driver α} {P Q : Nat → α → Nat → Prop} (hx : x.Ends P)
    (h : ∀ n a n', P n a n' → Q n a n') : x.Ends Q :=
  fun v n ↦ Program.Ends.mono (fun r : α × Nat ↦ h n r.1 r.2) (hx v n)

theorem ends_pure {a : α} {P : Nat → α → Nat → Prop} (h : ∀ n, P n a n) :
    (pure a : Driver α).Ends P :=
  fun _ n ↦ h n

theorem ends_bind_program {x : Driver α} {f : α → Driver β} {v : Verbosity} {n : Nat}
    {Q : β × Nat → Prop} : ((x >>= f).program v n).Ends Q ↔
      (x.program v n).Ends fun r ↦ ((f r.1).program v r.2).Ends Q := by
  rw [bind_program, Program.ends_bind]

theorem ends_spin (cycles : UInt32) : (spin cycles).Ends fun n _ n' ↦ n = n' + 1 := by
  intro v n
  cases n with
  | zero => trivial
  | succ n => exact fun _ ↦ rfl

theorem ends_suspend : suspend.Ends fun n _ n' ↦ n = n' + 1 := by
  intro v n
  cases n with
  | zero => trivial
  | succ n => exact fun _ ↦ rfl

theorem ends_report (s : Severity) (text : Unit → String) :
    (report s text).Ends fun n _ n' ↦ n' = n := by
  intro v n
  unfold program report
  split
  · exact fun _ ↦ rfl
  · exact rfl

/-! ## Loops -/

/-- What one turn of a loop decides. -/
inductive Turn (σ α : Type)
  /-- Take another turn, on this state. -/
  | again (state : σ)
  /-- The loop is over, with this value. -/
  | stop (value : α)

/-- At most so many turns of a loop. -/
def iterate (body : σ → Driver (Turn σ α)) : Nat → σ → Driver α
  | 0, _ => exhausted
  | turns + 1, s => do
    match ← body s with
    | .again s' => iterate body turns s'
    | .stop a => pure a

/-- Turns of a loop until one says `stop`. -/
def loop (μ : σ → Nat) (body : σ → Driver (Turn σ α)) (s : σ) : Driver α := fun v n ↦
  iterate body (n + μ s + 1) s v n

/-- A turn that goes on has called the hart or lowered the measure. -/
def Descends (μ : σ → Nat) (body : σ → Driver (Turn σ α)) : Prop :=
  ∀ s, (body s).Ends fun n turn n' ↦ ∀ s', turn = .again s' → n' + μ s' < n + μ s

theorem iterate_succ (body : σ → Driver (Turn σ α)) (turns : Nat) (s : σ) (v : Verbosity)
    (n : Nat) :
    (iterate body (turns + 1) s).program v n =
      ((body s).program v n).bind fun r ↦
        match r.1 with
        | .again s' => (iterate body turns s').program v r.2
        | .stop a => .done (a, r.2) := by
  rw [iterate, bind_program]
  refine congrArg _ (funext fun r ↦ ?_)
  cases r.1 <;> rfl

/-- More turns than the bound make no difference. -/
theorem iterate_eq {μ : σ → Nat} {body : σ → Driver (Turn σ α)} (h : Descends μ body)
    (v : Verbosity) (k : Nat) : ∀ (n : Nat) (s : σ) (turns : Nat), n + μ s = k → k < turns →
      (iterate body turns s).program v n = (iterate body (k + 1) s).program v n := by
  induction k using Nat.strongRecOn with
  | _ k ih =>
    intro n s turns hk hturns
    obtain ⟨t, rfl⟩ : ∃ t, turns = t + 1 := ⟨turns - 1, by omega⟩
    rw [iterate_succ, iterate_succ]
    refine Program.bind_congr (h s v n) fun r hr ↦ ?_
    rcases hturn : r.1 with s' | a
    · have hlt := hr s' hturn
      show (iterate body t s').program v r.2 = (iterate body k s').program v r.2
      rw [ih (r.2 + μ s') (by omega) r.2 s' t rfl (by omega),
        ih (r.2 + μ s') (by omega) r.2 s' k rfl (by omega)]
    · rfl

/-- What holds of the end of a loop: it holds where a turn stops, and a turn that goes on leads back
to it from the next state. -/
theorem ends_loop {μ : σ → Nat} {body : σ → Driver (Turn σ α)} {P : σ → Nat → α → Nat → Prop}
    (h : ∀ s, (body s).Ends fun n turn n' ↦
      match turn with
      | .stop a => P s n a n'
      | .again s' => ∀ a n'', P s' n' a n'' → P s n a n'')
    (s : σ) : (loop μ body s).Ends (P s) := by
  have key : ∀ (turns : Nat) (s : σ), (iterate body turns s).Ends (P s) := by
    intro turns
    induction turns with
    | zero => exact fun _ _ _ ↦ trivial
    | succ turns ih =>
      intro s v n
      rw [iterate_succ, Program.ends_bind]
      refine Program.Ends.mono (fun r hr ↦ ?_) (h s v n)
      rcases r with ⟨s' | a, n'⟩
      · exact Program.Ends.mono (fun r hr' ↦ hr r.1 r.2 hr') (ih s' v n')
      · exact hr
  exact fun v n ↦ key _ s v n

/-- **A loop is its body, followed by the loop again or by nothing.** -/
theorem loop_eq {μ : σ → Nat} {body : σ → Driver (Turn σ α)} (h : Descends μ body) (s : σ) :
    loop μ body s =
      body s >>= fun turn ↦
        match turn with
        | .again s' => loop μ body s'
        | .stop a => pure a := by
  funext v n
  show (iterate body (n + μ s + 1) s).program v n = (body s >>= _).program v n
  rw [iterate_succ, bind_program]
  refine Program.bind_congr (h s v n) fun r hr ↦ ?_
  rcases r with ⟨s' | a, n'⟩
  · exact iterate_eq h v _ n' s' _ rfl (hr s' rfl)
  · rfl

end Driver
end TileEvents
