import TileEvents.Proofs.Mild

/-!
# What takes nothing out of the masks

Of all that can be asked of the drivers, three commands take lines out of the masks: they disable
lines or reset everything (`Command.Narrows`).  Everything else leaves the masks alone or adds
lines to them (`Command.keepsMasks`).
-/

set_option autoImplicit false

namespace TileEvents

/-- The driver takes no lines out of the masks. -/
def Driver.KeepsMasks {α : Type} (x : Driver α) : Prop :=
  ∀ ⦃v : Verbosity⦄ ⦃n : Nat⦄ ⦃es : List Event⦄ ⦃a : α⦄ ⦃n' : Nat⦄, x.Does v n es a n' →
    ∀ e ∈ es, ¬ e.Narrows

theorem Driver.Mild.keepsMasks {α : Type} {x : Driver α} (h : x.Mild) : x.KeepsMasks :=
  fun _ _ _ _ _ hx e he ↦ (h hx e he).not_narrows

namespace Command

/-- What a command on a channel does, it does on the channel that there is with the index. -/
theorem does_onChannel {d : Direction} {index : Nat} {x : Channel → Driver Answer} {v : Verbosity}
    {n n' : Nat} {es : List Event} {a : Answer} (h : (onChannel d index x).Does v n es a n') :
    es = [] ∧ (∀ c, Channel.ofIndex d index ≠ .ok c) ∨
      ∃ c, Channel.ofIndex d index = .ok c ∧ (x c).Does v n es a n' := by
  rw [onChannel] at h
  cases hc : Channel.ofIndex d index with
  | ok c =>
    rw [hc] at h
    exact .inr ⟨c, rfl, h⟩
  | error e =>
    rw [hc] at h
    exact .inl ⟨(Driver.does_pure_iff.1 h).1, fun _ ↦ by simp⟩

/-- **Nothing else takes lines out of the masks.** -/
theorem keepsMasks {c : Command} (h : ¬ c.Narrows) : c.driver.KeepsMasks := by
  cases c with
  | launch d index =>
    intro v n es a n' hdoes
    obtain ⟨rfl, -⟩ | ⟨c, -, hdoes⟩ := does_onChannel hdoes
    · exact fun _ he ↦ absurd he List.not_mem_nil
    · rw [map_eq_pure_bind] at hdoes
      obtain ⟨transfer, -, hlaunch⟩ := Driver.does_bind_pure_iff.1 hdoes
      obtain ⟨records, hrecords, rfl⟩ := Dma.does_launch hlaunch
      refine List.forall_mem_cons.2 ⟨id, fun e he ↦ ?_⟩
      obtain ⟨severity, text, rfl⟩ := hrecords e he
      exact id
  | _ => exact (mild h nofun).keepsMasks

end Command
end TileEvents
