import TileEvents.Proofs.Consumption
import TileEvents.Proofs.Walk

/-!
# Buffers that latch

A line of an event buffer goes up when something arrives on it and stays up until it is taken down.
`Latches` says so of one moment: what was up before and what arrives is up after it, unless it is
taken down.  What arrives comes first, so an arrival that meets the write that takes its line down
is taken down with it.

Then all that a run leaves up is accounted for (`mem_of_walk`), and a line that goes up again has
an arrival to show for it (`exists_arrival`).
-/

set_option autoImplicit false

namespace TileEvents

variable {σ : Type} {buffer : σ → EventMask} {arrivals : Moment σ → EventMask}

/-- What was up or arrives is up afterwards, unless it is taken down. -/
def Latches (buffer : σ → EventMask) (arrivals : Moment σ → EventMask) (m : Moment σ) : Prop :=
  buffer m.after = (buffer m.before ∪ arrivals m) \ m.event.clears

theorem Latches.mem_iff {m : Moment σ} (h : Latches buffer arrivals m) {b : Nat} :
    b ∈ buffer m.after ↔ (b ∈ buffer m.before ∨ b ∈ arrivals m) ∧ ¬ b ∈ m.event.clears := by
  rw [h, EventMask.mem_sdiff, EventMask.mem_union]

/-- **What is up in the end** was up in the beginning or arrived, and was not taken down since. -/
theorem mem_of_walk {p : Platform σ} {s s' : σ} {ms : List (Moment σ)} (h : p.Walk s ms s')
    (hl : ∀ m ∈ ms, Latches buffer arrivals m) {b : Nat} :
    b ∈ buffer s' ↔ (b ∈ buffer s ∧ ∀ m ∈ ms, ¬ b ∈ m.event.clears) ∨
      ∃ earlier m later, ms = earlier ++ m :: later ∧ b ∈ arrivals m ∧
        ∀ m' ∈ m :: later, ¬ b ∈ m'.event.clears := by
  induction ms generalizing s with
  | nil =>
    obtain rfl := Platform.Walk.nil_iff.1 h
    simp
  | cons m ms ih =>
    obtain ⟨rfl, -, hrest⟩ := Platform.Walk.cons_iff.1 h
    rw [ih hrest fun m' hm' ↦ hl m' (.tail m hm'), (hl m (.head ms)).mem_iff]
    constructor
    · rintro (⟨⟨hup | harrives, hm⟩, hms⟩ | ⟨earlier, m', later, rfl, hm'⟩)
      · exact .inl ⟨hup, List.forall_mem_cons.2 ⟨hm, hms⟩⟩
      · exact .inr ⟨[], m, ms, rfl, harrives, List.forall_mem_cons.2 ⟨hm, hms⟩⟩
      · exact .inr ⟨m :: earlier, m', later, rfl, hm'⟩
    · rintro (⟨hup, hall⟩ | ⟨_ | ⟨m₁, earlier⟩, m', later, hsplit, harrives, hall⟩)
      · obtain ⟨hm, hms⟩ := List.forall_mem_cons.1 hall
        exact .inl ⟨⟨.inl hup, hm⟩, hms⟩
      · obtain ⟨rfl, rfl⟩ := List.cons.inj hsplit
        obtain ⟨hm, hms⟩ := List.forall_mem_cons.1 hall
        exact .inl ⟨⟨.inr harrives, hm⟩, hms⟩
      · obtain ⟨-, rfl⟩ := List.cons.inj hsplit
        exact .inr ⟨earlier, m', later, rfl, harrives, hall⟩

/-- A line that is down in the beginning and up in the end has arrived. -/
theorem exists_arrival {p : Platform σ} {s s' : σ} {ms : List (Moment σ)} (h : p.Walk s ms s')
    (hl : ∀ m ∈ ms, Latches buffer arrivals m) {b : Nat} (hs : ¬ b ∈ buffer s)
    (hs' : b ∈ buffer s') : ∃ m ∈ ms, b ∈ arrivals m := by
  obtain ⟨hup, -⟩ | ⟨earlier, m, later, rfl, harrives, -⟩ := (mem_of_walk h hl).1 hs'
  · exact absurd hup hs
  · exact ⟨m, by simp, harrives⟩

/-! ## One arrival, one taking down -/

open EventUnit (Looked)

/-- A look in a run, at the moment before the lines that were seen are taken down. -/
theorem exists_look {ms before after : List (Moment σ)} {m : Moment σ} {b : Nat}
    (h : Looked (ms.map Moment.event)) (hms : ms = before ++ m :: after)
    (hb : b ∈ m.event.clears) :
    ∃ earlier l up, before = earlier ++ [l] ∧ l.event = .look up ∧ b ∈ up := by
  subst hms
  obtain ⟨es, up, hes, hup⟩ := h (before.map Moment.event) m.event (after.map Moment.event) b
    (by rw [List.map_append, List.map_cons]) hb
  obtain ⟨earlier, ls, rfl, -, hls⟩ := List.map_eq_append_iff.1 hes
  obtain ⟨l, rfl, hl⟩ := List.map_eq_singleton_iff.1 hls
  exact ⟨earlier, l, up, rfl, hl, hup⟩

/-- **A line that is taken down twice has arrived in between**, if looks are right about what is
up. -/
theorem exists_arrival_between {p : Platform σ} {s s' : σ}
    {before between after : List (Moment σ)} {m m' : Moment σ} {b : Nat}
    (h : p.Walk s (before ++ m :: between ++ m' :: after) s')
    (hl : ∀ m₁ ∈ before ++ m :: between ++ m' :: after, Latches buffer arrivals m₁)
    (hup : ∀ m₁ ∈ before ++ m :: between ++ m' :: after, ∀ up, m₁.event = .look up →
      ∀ i, i ∈ up → i ∈ buffer m₁.after)
    (hlooked : Looked ((before ++ m :: between ++ m' :: after).map Moment.event))
    (hb : b ∈ m.event.clears) (hb' : b ∈ m'.event.clears) : ∃ a ∈ between, b ∈ arrivals a := by
  obtain ⟨earlier, l, up, hsplit, hlook, hmem⟩ := exists_look hlooked rfl hb'
  obtain ⟨s₂, hwalk, -⟩ := Platform.Walk.append_iff.1 h
  replace hwalk := hwalk.split.2
  have hdown : ¬ b ∈ buffer m.after := fun hmem' ↦ ((hl m (by simp)).mem_iff.1 hmem').2 hb
  rcases List.eq_nil_or_concat between with rfl | ⟨between, l', rfl⟩
  · -- the look before the second taking down cannot be the first one
    obtain ⟨-, hlast⟩ := List.append_inj' hsplit rfl
    obtain rfl := List.singleton_inj.1 hlast
    rw [hlook] at hb
    exact absurd hb (EventMask.not_mem_empty b)
  · rw [List.concat_eq_append] at hwalk hl hup hsplit ⊢
    rw [← List.cons_append, ← List.append_assoc] at hsplit
    obtain ⟨-, hlast⟩ := List.append_inj' hsplit rfl
    obtain rfl := List.singleton_inj.1 hlast
    have hafter : l'.after = s₂ := by
      obtain ⟨s₃, -, hl'⟩ := Platform.Walk.append_iff.1 hwalk
      exact (Platform.Walk.nil_iff.1 (Platform.Walk.cons_iff.1 hl').2.2).symm
    refine exists_arrival hwalk (fun m₁ hm₁ ↦ hl m₁ ?_) hdown ?_
    · exact List.mem_append_left _ (List.mem_append_right _ (.tail m hm₁))
    · rw [← hafter]
      exact hup l' (by simp) up hlook b hmem

/-! ## Lines that come up again -/

/-- Something arrives on the line after it was taken down. -/
def Reposted (arrivals : Moment σ → EventMask) (ms : List (Moment σ)) (b : Nat) : Prop :=
  ∃ earlier m later, ms = earlier ++ m :: later ∧ b ∈ m.event.clears ∧
    ∃ a ∈ later, b ∈ arrivals a

/-- Nothing comes up again where nothing arrives. -/
theorem reposted_append_iff {ms ms' : List (Moment σ)} {b : Nat}
    (h : ∀ m ∈ ms', ¬ b ∈ arrivals m) :
    Reposted arrivals (ms ++ ms') b ↔ Reposted arrivals ms b := by
  constructor
  · rintro ⟨earlier, m, later, hms, hb, a, ha, harrives⟩
    rcases List.append_eq_append_iff.1 hms with ⟨l, rfl, rfl⟩ | ⟨_ | ⟨m', l⟩, rfl, hl⟩
    · exact absurd harrives (h a (by simp [ha]))
    · rw [List.nil_append] at hl
      exact absurd harrives (h a (hl ▸ .tail m ha))
    · obtain ⟨rfl, rfl⟩ := List.cons.inj hl
      rcases List.mem_append.1 ha with ha | ha
      · exact ⟨earlier, m, l, rfl, hb, a, ha, harrives⟩
      · exact absurd harrives (h a ha)
  · rintro ⟨earlier, m, later, rfl, hb, a, ha, harrives⟩
    refine ⟨earlier, m, later ++ ms', ?_, hb, a, List.mem_append_left ms' ha, harrives⟩
    rw [List.append_assoc, List.cons_append]

/-- **A line that is taken down once is up in the end exactly if it has come up again.** -/
theorem mem_iff_reposted {p : Platform σ} {s s' : σ} {ms : List (Moment σ)} {b : Nat}
    (h : p.Walk s ms s') (hl : ∀ m ∈ ms, Latches buffer arrivals m)
    (honce : (ms.map Moment.event).countP (fun e ↦ decide (b ∈ e.clears)) = 1) :
    b ∈ buffer s' ↔ Reposted arrivals ms b := by
  have key : ∀ earlier m later, ms = earlier ++ m :: later → b ∈ m.event.clears →
      (b ∈ buffer s' ↔ ∃ a ∈ later, b ∈ arrivals a) := by
    rintro earlier m later rfl hb
    have hwalk := h.split.2
    have hdown : ¬ b ∈ buffer m.after := fun hup ↦ ((hl m (by simp)).mem_iff.1 hup).2 hb
    have hlater : ∀ a ∈ later, ¬ b ∈ a.event.clears := by
      rw [List.countP_map, List.countP_append, List.countP_cons] at honce
      have hzero : later.countP ((fun e ↦ decide (b ∈ e.clears)) ∘ Moment.event) = 0 := by
        simp only [Function.comp, hb, decide_true, if_true] at honce
        exact Nat.le_zero.1 (by omega)
      intro a ha
      simpa using List.countP_eq_zero.1 hzero a ha
    rw [mem_of_walk hwalk fun a ha ↦ hl a (by simp [ha])]
    constructor
    · rintro (⟨hup, -⟩ | ⟨pre, a, post, rfl, harrives, -⟩)
      · exact absurd hup hdown
      · exact ⟨a, by simp, harrives⟩
    · rintro ⟨a, ha, harrives⟩
      obtain ⟨pre, post, rfl⟩ := List.append_of_mem ha
      exact .inr ⟨pre, a, post, rfl, harrives, fun m' hm' ↦
        hlater m' (List.mem_append_right pre hm')⟩
  constructor
  · intro hup
    have hpos : 0 < (ms.map Moment.event).countP fun e ↦ decide (b ∈ e.clears) := by omega
    obtain ⟨e, he, hb⟩ := List.countP_pos_iff.1 hpos
    obtain ⟨m, hm, rfl⟩ := List.mem_map.1 he
    obtain ⟨earlier, later, hms⟩ := List.append_of_mem hm
    have hb : b ∈ m.event.clears := of_decide_eq_true hb
    exact ⟨earlier, m, later, hms, hb, (key earlier m later hms hb).1 hup⟩
  · rintro ⟨earlier, m, later, hms, hb, hagain⟩
    exact (key earlier m later hms hb).2 hagain

end TileEvents
