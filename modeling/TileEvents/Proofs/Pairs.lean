import TileEvents.Proofs.Abridges
import TileEvents.Proofs.Returns

/-!
# Two runs side by side

`Platform.Pairs` compares what two drivers do to one kind of hardware: if they are run in states
that are related and both come to their end, then the values and the states they end with are
related.  Nothing is said of runs that break off or run out of calls.  There is one rule for each
way to put drivers together.

The rule for loops lets either run take turns by itself while the other one waits
(`Platform.pairs_loop`).  So the two need not go round equally often, as they do in the rule for
loops in step (`Platform.pairs_loop_step`).
-/

set_option autoImplicit false

namespace TileEvents
namespace Platform

variable {σ α β γ δ ι κ : Type} {p : Platform σ}

/-- Run in related states, the drivers end with related values in related states, if both end. -/
def Pairs (p : Platform σ) (x : Driver α) (y : Driver β) (R : σ → σ → Prop)
    (Q : α → σ → β → σ → Prop) : Prop :=
  ∀ ⦃v w : Verbosity⦄ ⦃n n' k k' : Nat⦄ ⦃s s' t t' : σ⦄ ⦃a : α⦄ ⦃b : β⦄, R s t →
    p.Returns x v n s a n' s' → p.Returns y w k t b k' t' → Q a s' b t'

variable {R : σ → σ → Prop} {Q : α → σ → β → σ → Prop}

theorem Pairs.mono {x : Driver α} {y : Driver β} {R' : σ → σ → Prop} {Q' : α → σ → β → σ → Prop}
    (h : p.Pairs x y R Q) (hR : ∀ s t, R' s t → R s t)
    (hQ : ∀ a s b t, Q a s b t → Q' a s b t) : p.Pairs x y R' Q' :=
  fun _ _ _ _ _ _ _ _ _ _ _ _ hst hx hy ↦ hQ _ _ _ _ (h (hR _ _ hst) hx hy)

theorem pairs_pure {a : α} {b : β} (h : ∀ s t, R s t → Q a s b t) :
    p.Pairs (pure a) (pure b) R Q := by
  intro v w n n' k k' s s' t t' a' b' hst hx hy
  obtain ⟨rfl, -, rfl⟩ := hx.unique (returns_pure a)
  obtain ⟨rfl, -, rfl⟩ := hy.unique (returns_pure b)
  exact h s' t' hst

/-- Records change no hardware. -/
theorem pairs_report (severity severity' : Severity) (text text' : Unit → String) :
    p.Pairs (Driver.report severity text) (Driver.report severity' text') R
      fun _ s _ t ↦ R s t := by
  intro v w n n' k k' s s' t t' a b hst hx hy
  obtain ⟨-, -, rfl⟩ := hx.unique (returns_report severity text)
  obtain ⟨-, -, rfl⟩ := hy.unique (returns_report severity' text')
  exact hst

theorem Pairs.bind {x : Driver α} {y : Driver β} {f : α → Driver γ} {g : β → Driver δ}
    {Q' : γ → σ → δ → σ → Prop} (h : p.Pairs x y R Q)
    (hfg : ∀ a b, p.Pairs (f a) (g b) (fun s t ↦ Q a s b t) Q') :
    p.Pairs (x >>= f) (y >>= g) R Q' := by
  intro v w n n' k k' s s' t t' c d hst hx hy
  obtain ⟨a, n₁, s₁, hx, hf⟩ := returns_bind_iff.1 hx
  obtain ⟨b, k₁, t₁, hy, hg⟩ := returns_bind_iff.1 hy
  exact hfg a b (h hst hx hy) hf hg

/-- One driver after another, where the first ones end with the same value. -/
theorem Pairs.bind_same {x y : Driver α} {f : α → Driver γ} {g : α → Driver δ}
    {R' : σ → σ → Prop} {Q' : γ → σ → δ → σ → Prop}
    (h : p.Pairs x y R fun a s b t ↦ a = b ∧ R' s t) (hfg : ∀ a, p.Pairs (f a) (g a) R' Q') :
    p.Pairs (x >>= f) (y >>= g) R Q' := by
  refine h.bind fun a b ↦ ?_
  rintro v w n n' k k' s s' t t' c d ⟨rfl, hst⟩ hf hg
  exact hfg a hst hf hg

section Loops

variable {μ : ι → Nat} {μ' : κ → Nat} {body : ι → Driver (Driver.Turn ι α)}
  {body' : κ → Driver (Driver.Turn κ β)} {I : ι → κ → σ → σ → Prop}

theorem not_returns_iterate_zero {i : ι} {v : Verbosity} {n n' : Nat} {s s' : σ} {a : α} :
    ¬ p.Returns (Driver.iterate body 0 i) v n s a n' s' := by
  simp [Returns, Driver.iterate, Driver.program, Driver.exhausted]

/-- **Two loops that go round in their own time.**  At each point either both take a turn, or one of
them takes a turn that does not matter to the other. -/
theorem pairs_loop
    (h : ∀ {i j} {v w : Verbosity} {n n' k k' : Nat} {s s' t t' : σ} {turn turn'}, I i j s t →
      p.Returns (body i) v n s turn n' s' → p.Returns (body' j) w k t turn' k' t' →
        (∃ i', turn = .again i' ∧ I i' j s' t) ∨ (∃ j', turn' = .again j' ∧ I i j' s t') ∨
          Driver.Turn.Same (fun i' j' ↦ I i' j' s' t') (fun a b ↦ Q a s' b t') turn turn')
    (i : ι) (j : κ) : p.Pairs (Driver.loop μ body i) (Driver.loop μ' body' j) (I i j) Q := by
  have key : ∀ (total turns turns' : Nat), turns + turns' = total →
      ∀ {i j} {v w : Verbosity} {n n' k k' : Nat} {s s' t t' : σ} {a b}, I i j s t →
        p.Returns (Driver.iterate body turns i) v n s a n' s' →
        p.Returns (Driver.iterate body' turns' j) w k t b k' t' → Q a s' b t' := by
    intro total
    induction total using Nat.strongRecOn with
    | _ total ih =>
      intro turns turns' htotal i j v w n n' k k' s s' t t' a b hI hx hy
      cases turns with
      | zero => exact absurd hx not_returns_iterate_zero
      | succ turns =>
        cases turns' with
        | zero => exact absurd hy not_returns_iterate_zero
        | succ turns' =>
          have hx' := hx
          have hy' := hy
          rw [Driver.iterate] at hx' hy'
          obtain ⟨turn, n₁, s₁, hturn, hrest⟩ := returns_bind_iff.1 hx'
          obtain ⟨turn', k₁, t₁, hturn', hrest'⟩ := returns_bind_iff.1 hy'
          rcases h hI hturn hturn' with ⟨i', rfl, hI'⟩ | ⟨j', rfl, hI'⟩ | hboth
          · exact ih (turns + (turns' + 1)) (by omega) turns (turns' + 1) rfl hI' hrest hy
          · exact ih (turns + 1 + turns') (by omega) (turns + 1) turns' rfl hI' hx hrest'
          · cases turn with
            | again i' =>
              cases turn' with
              | again j' => exact ih (turns + turns') (by omega) turns turns' rfl hboth hrest hrest'
              | stop b' => exact hboth.elim
            | stop a' =>
              cases turn' with
              | again j' => exact hboth.elim
              | stop b' =>
                obtain ⟨rfl, -, rfl⟩ := hrest.unique (returns_pure a')
                obtain ⟨rfl, -, rfl⟩ := hrest'.unique (returns_pure b')
                exact hboth
  intro v w n n' k k' s s' t t' a b hI hx hy
  exact key _ _ _ rfl hI hx hy

/-- Two loops in step. -/
theorem pairs_loop_step
    (h : ∀ i j, p.Pairs (body i) (body' j) (I i j) fun turn s turn' t ↦
      Driver.Turn.Same (fun i' j' ↦ I i' j' s t) (fun a b ↦ Q a s b t) turn turn')
    (i : ι) (j : κ) : p.Pairs (Driver.loop μ body i) (Driver.loop μ' body' j) (I i j) Q :=
  pairs_loop (fun hI hx hy ↦ .inr (.inr (h _ _ hI hx hy))) i j

end Loops
end Platform
end TileEvents
