import TileEvents.Proofs.Silenced

/-!
# Programs that may give up

A wait with a budget does what the same wait with a larger budget does, except that it may give up
on the way.  `Program.Abridges late same p q` says so of any two programs: whatever the hardware
replies, `p` and `q` take the same actions until both end, with values that are the `same`, or
until `p` ends with a value that is `late`; what `q` does from there on is left open.

So if `p` does not give up, a run of `q` is a run of `p`, to the last access; and if it does, the
run of `q` begins as the run of `p` (`Program.Abridges.run`).

There is one rule for each way to put drivers together.  They are about drivers that leave no
records (`Driver.Abridges`): one that gives up may say so.
-/

set_option autoImplicit false

namespace TileEvents

namespace Program

variable {α β γ δ : Type}

/-- Until `p` ends with a value that is `late`, `q` does the same. -/
inductive Abridges (late : α → Prop) (same : α → β → Prop) : Program α → Program β → Prop
  | late {a : α} {q : Program β} (h : late a) : Abridges late same (.done a) q
  | done {a : α} {b : β} (h : same a b) : Abridges late same (.done a) (.done b)
  | fault (why : Fault) : Abridges late same (.fault why) (.fault why)
  | exhausted : Abridges late same .exhausted .exhausted
  | step {action : Action} {next : action.Reply → Program α} {next' : action.Reply → Program β}
      (h : ∀ r, Abridges late same (next r) (next' r)) :
      Abridges late same (.step action next) (.step action next')

namespace Abridges

variable {late late' : α → Prop} {same same' : α → β → Prop} {p : Program α} {q : Program β}

theorem mono (h : p.Abridges late same q) (hlate : ∀ a, late a → late' a)
    (hsame : ∀ a b, same a b → same' a b) : p.Abridges late' same' q := by
  induction h with
  | late h => exact .late (hlate _ h)
  | done h => exact .done (hsame _ _ h)
  | fault why => exact .fault why
  | exhausted => exact .exhausted
  | step _ ih => exact .step ih

/-- A program that never gives up. -/
protected theorem refl (p : Program α) : p.Abridges late Eq p := by
  induction p with
  | done a => exact .done rfl
  | fault why => exact .fault why
  | exhausted => exact .exhausted
  | step action next ih => exact .step ih

/-- What `p` can end with may be used of the values that are compared. -/
theorem and_ends (h : p.Abridges late same q) {P : α → Prop} (hp : p.Ends P) :
    p.Abridges late (fun a b ↦ same a b ∧ P a) q := by
  induction h with
  | late h => exact .late h
  | done h => exact .done ⟨h, hp⟩
  | fault why => exact .fault why
  | exhausted => exact .exhausted
  | step _ ih => exact .step fun r ↦ ih r (hp r)

/-- One program after another.  What comes after giving up must be the end. -/
theorem bind {k : α → Program γ} {l : β → Program δ} {late' : γ → Prop} {same' : γ → δ → Prop}
    (h : p.Abridges late same q) (hlate : ∀ a, late a → ∃ c, k a = .done c ∧ late' c)
    (hsame : ∀ a b, same a b → (k a).Abridges late' same' (l b)) :
    (p.bind k).Abridges late' same' (q.bind l) := by
  induction h with
  | late h =>
    obtain ⟨c, hk, hc⟩ := hlate _ h
    rw [Program.bind, hk]
    exact .late hc
  | done h => exact hsame _ _ h
  | fault why => exact .fault why
  | exhausted => exact .exhausted
  | step _ ih => exact .step ih

/-- **A run that does not give up is the other run; one that does is the beginning of it.** -/
theorem run {σ : Type} {q : Program α} (h : p.Abridges late Eq q) (hardware : Platform σ) (s : σ) :
    hardware.run q s = hardware.run p s ∨
      ∃ a s', late a ∧ (hardware.run p s).outcome = .returned a s' ∧
        (hardware.run p s).events <+: (hardware.run q s).events := by
  induction h generalizing s with
  | late h => exact .inr ⟨_, s, h, rfl, List.nil_prefix⟩
  | done h => exact .inl (h ▸ rfl)
  | fault why => exact .inl rfl
  | exhausted => exact .inl rfl
  | @step action next next' _ ih =>
    rw [Platform.run_step, Platform.run_step]
    cases hardware.answer action s with
    | error f => exact .inl rfl
    | ok r =>
      rcases ih r.1 r.2 with hsame | ⟨a, s', hlate, houtcome, hevents⟩
      · exact .inl (congrArg (Run.after [.ofReply action r.1]) hsame)
      · exact .inr ⟨a, s', hlate, houtcome, (List.prefix_append_right_inj _).2 hevents⟩

end Abridges
end Program

namespace Driver

variable {α β γ δ σ τ : Type}

/-! ## Drivers that may give up -/

/-- Where no records are kept, the driver `y` does what `x` does until `x` ends with a value that
is `late`.  If it does not, both have as many calls of the hart left. -/
def Abridges (late : α → Prop) (same : α → β → Prop) (x : Driver α) (y : Driver β) : Prop :=
  ∀ n, (x.program none n).Abridges (fun r ↦ late r.1) (fun r t ↦ same r.1 t.1 ∧ r.2 = t.2)
    (y.program none n)

section Rules

variable {late late' : α → Prop} {same same' : α → β → Prop} {x : Driver α} {y : Driver β}

theorem Abridges.mono (h : x.Abridges late same y) (hlate : ∀ a, late a → late' a)
    (hsame : ∀ a b, same a b → same' a b) : x.Abridges late' same' y :=
  fun n ↦ (h n).mono (fun r ↦ hlate r.1) fun r t hr ↦ ⟨hsame r.1 t.1 hr.1, hr.2⟩

theorem abridges_refl (x : Driver α) : x.Abridges late Eq x :=
  fun _ ↦ (Program.Abridges.refl _).mono (fun _ ↦ id) fun _ _ h ↦ h ▸ ⟨rfl, rfl⟩

theorem abridges_pure {a : α} {b : β} (h : same a b) : Abridges late same (pure a) (pure b) :=
  fun _ ↦ .done ⟨h, rfl⟩

theorem abridges_late {a : α} (h : late a) : Abridges late same (pure a) y :=
  fun _ ↦ .late h

/-- Records make no difference. -/
theorem Abridges.silent_bind {w w' : Driver Unit} {f : Unit → Driver α} {g : Unit → Driver β}
    (hw : Silent w) (hw' : Silent w') (h : (f ()).Abridges late same (g ())) :
    (w >>= f).Abridges late same (w' >>= g) := by
  intro n
  rw [hw.bind_program, hw'.bind_program]
  exact h n

theorem Abridges.bind {f : α → Driver γ} {g : β → Driver δ} {late' : γ → Prop}
    {same' : γ → δ → Prop} (h : x.Abridges late same y)
    (hlate : ∀ a, late a → ∀ n, ∃ c n', (f a).program none n = .done (c, n') ∧ late' c)
    (hsame : ∀ a b, same a b → (f a).Abridges late' same' (g b)) :
    (x >>= f).Abridges late' same' (y >>= g) := by
  intro n
  rw [bind_program, bind_program]
  refine (h n).bind (fun r hr ↦ ?_) fun r t hr ↦ ?_
  · obtain ⟨c, n', hdone, hc⟩ := hlate r.1 hr r.2
    exact ⟨(c, n'), hdone, hc⟩
  · rw [← hr.2]
    exact hsame r.1 t.1 hr.1 r.2

/-- A driver whose value is only changed. -/
theorem Abridges.map {y : Driver α} (h : x.Abridges late Eq y) {f : α → γ} {late' : γ → Prop}
    (hlate : ∀ a, late a → late' (f a)) : (f <$> x).Abridges late' Eq (f <$> y) := by
  rw [map_eq_pure_bind, map_eq_pure_bind]
  refine h.bind (fun a ha n ↦ ⟨f a, n, rfl, hlate a ha⟩) ?_
  rintro a _ rfl
  exact abridges_pure rfl

/-- One driver after another that never gives up. -/
theorem Abridges.after {z : Driver γ} {f : γ → Driver α} {g : γ → Driver β}
    (h : ∀ c, (f c).Abridges late same (g c)) : (z >>= f).Abridges late same (z >>= g) := by
  have hz : z.Abridges (fun _ ↦ False) Eq z := abridges_refl z
  refine hz.bind (fun _ hc ↦ hc.elim) ?_
  rintro c _ rfl
  exact h c

end Rules

/-- A turn that stops late. -/
def Turn.Late (late : α → Prop) (turn : Turn σ α) : Prop := ∃ a, turn = .stop a ∧ late a

/-- Two turns that decide the same. -/
def Turn.Same (R : σ → τ → Prop) (same : α → β → Prop) : Turn σ α → Turn τ β → Prop
  | .again s, .again t => R s t
  | .stop a, .stop b => same a b
  | _, _ => False

/-- **A loop may give up where its turns may**, if the turns keep the states related. -/
theorem abridges_loop {late : α → Prop} {same : α → β → Prop} {R : σ → τ → Prop}
    {μ : σ → Nat} {μ' : τ → Nat} {body : σ → Driver (Turn σ α)} {body' : τ → Driver (Turn τ β)}
    (hd : Descends μ body) (hd' : Descends μ' body')
    (h : ∀ s t, R s t →
      (body s).Abridges (Turn.Late late) (Turn.Same R same) (body' t))
    {s : σ} {t : τ} (hst : R s t) :
    (loop μ body s).Abridges late same (loop μ' body' t) := by
  intro n
  induction hk : n + μ s using Nat.strongRecOn generalizing s t n with
  | _ k ih =>
    rw [loop_eq hd, loop_eq hd', bind_program, bind_program]
    refine ((h s t hst n).and_ends (hd s none n)).bind ?_ ?_
    · rintro ⟨turn, n₁⟩ ⟨a, rfl, ha⟩
      exact ⟨(a, n₁), rfl, ha⟩
    · rintro ⟨turn, n₁⟩ ⟨turn', n₁'⟩ ⟨⟨hsame, rfl⟩, hless⟩
      cases turn with
      | again s₁ =>
        cases turn' with
        | again t₁ => exact ih _ (hk ▸ hless s₁ rfl) hsame n₁ rfl
        | stop b => exact hsame.elim
      | stop a =>
        cases turn' with
        | again t₁ => exact hsame.elim
        | stop b => exact .done ⟨hsame, rfl⟩

end Driver
end TileEvents
