import TileEvents.Proofs.Operations

/-!
# What a wait takes down

A wait uses up the lines it answers with: it takes each of them down once, and no other line, and
right before that it has looked and found the line up.  `Consumes es m` says so of the events `es`
of a wait and the lines `m`.

The waits are built from one another, and what they consume adds up, as long as no line is asked
for twice (`Consumes.append`).  So there is one lemma for each of them, from `take`, which looks and
takes down once, to `pollRounds`, a loop of `poll`, which is a loop of `take`.  None of them relies
on what the hardware replies.

A wait that sleeps until all devices are done is here with its rounds only: after them it takes
down everything once more.
-/

set_option autoImplicit false

namespace TileEvents

namespace Event

/-- The lines that are taken down. -/
def clears : Event → EventMask
  | write .eventUnit o value =>
    if o = EventUnit.Register.bufferClear.offset then ⟨value⟩ else ∅
  | _ => ∅

@[simp] theorem clears_look (up : EventMask) : (look up).clears = ∅ := rfl

@[simp] theorem clears_takeDown (m : EventMask) : (takeDown m).clears = m := rfl

/-- What waits do to the hardware. -/
inductive OfWait : Event → Prop
  | look (up : EventMask) : OfWait (.look up)
  | takeDown (m : EventMask) : OfWait (.takeDown m)
  /-- Asks which lines wake the hart. -/
  | waking (m : EventMask) : OfWait (.read .eventUnit EventUnit.Register.irqMask.offset m.bits)
  /-- Has more lines wake the hart. -/
  | wake (m : EventMask) : OfWait (.write .eventUnit EventUnit.Register.irqMaskOr.offset m.bits)
  | spin (cycles : UInt32) : OfWait (.spin cycles)
  | suspend : OfWait .suspend
  | report (s : Severity) (text : String) : OfWait (.report s text)

end Event

namespace EventUnit

/-- What is taken down was up at a look just before. -/
def Looked (es : List Event) : Prop :=
  ∀ before e after b, es = before ++ e :: after → b ∈ e.clears →
    ∃ earlier up, before = earlier ++ [.look up] ∧ b ∈ up

theorem looked_iff {es : List Event} : Looked es ↔ EachAfter (fun before e ↦ ∀ b, b ∈ e.clears →
    ∃ earlier up, before = earlier ++ [.look up] ∧ b ∈ up) es :=
  ⟨fun h before e after hs b hb ↦ h before e after b hs hb,
    fun h before e after b hs hb ↦ h before e after hs b hb⟩

theorem Looked.append {es es' : List Event} (h : Looked es) (h' : Looked es') :
    Looked (es ++ es') := by
  refine looked_iff.2 (eachAfter_append_iff.2 ⟨looked_iff.1 h, fun before e after hs b hb ↦ ?_⟩)
  obtain ⟨earlier, up, rfl, hup⟩ := h' before e after b hs hb
  exact ⟨es ++ earlier, up, (List.append_assoc _ _ _).symm, hup⟩

/-- Events of a wait that take nothing down. -/
def Quiet (es : List Event) : Prop := ∀ e ∈ es, e.OfWait ∧ e.clears = ∅

theorem quiet_nil : Quiet [] := fun _ he ↦ absurd he List.not_mem_nil

theorem quiet_singleton {e : Event} (h : e.OfWait) (hclears : e.clears = ∅) : Quiet [e] :=
  List.forall_mem_singleton.2 ⟨h, hclears⟩

/-- A wait with these events consumes these lines. -/
structure Consumes (es : List Event) (m : EventMask) : Prop where
  ofWait : ∀ e ∈ es, e.OfWait
  looked : Looked es
  /-- A consumed line is taken down once, any other not at all. -/
  once : ∀ b, es.countP (fun e ↦ decide (b ∈ e.clears)) = if b ∈ m then 1 else 0

namespace Consumes

variable {es es' : List Event} {m m' : EventMask}

/-- Events that take nothing down consume nothing. -/
theorem of_quiet (h : Quiet es) : Consumes es ∅ where
  ofWait e he := (h e he).1
  looked := by
    rintro before e after b rfl hb
    rw [(h e (by simp)).2] at hb
    exact absurd hb (EventMask.not_mem_empty b)
  once b := by
    rw [if_neg (EventMask.not_mem_empty b), List.countP_eq_zero]
    intro e he
    simp [(h e he).2]

theorem nil : Consumes [] ∅ := of_quiet quiet_nil

/-- A look, after which the lines of it that are asked for are taken down. -/
theorem of_look (up m : EventMask) : Consumes [.look up, .takeDown (up ∩ m)] (up ∩ m) where
  ofWait := by
    simp only [List.mem_cons, List.not_mem_nil, or_false, forall_eq_or_imp, forall_eq]
    exact ⟨.look up, .takeDown _⟩
  looked := by
    intro before e after b h hb
    rcases before with _ | ⟨e₁, _ | ⟨e₂, before⟩⟩
    · obtain ⟨rfl, -⟩ := List.cons.inj h
      simp at hb
    · simp only [List.cons_append, List.nil_append, List.cons.injEq] at h
      obtain ⟨rfl, rfl, -⟩ := h
      exact ⟨[], up, rfl, (EventMask.mem_inter.1 hb).1⟩
    · simp at h
  once b := by
    by_cases h : b ∈ up ∩ m <;> simp [h]

/-- **What is consumed adds up**, if nothing is consumed twice. -/
theorem append (h : Consumes es m) (h' : Consumes es' m') (hd : ∀ b, b ∈ m → ¬ b ∈ m') :
    Consumes (es ++ es') (m ∪ m') where
  ofWait e he := (List.mem_append.1 he).elim (h.ofWait e) (h'.ofWait e)
  looked := h.looked.append h'.looked
  once b := by
    have hdb := hd b
    rw [List.countP_append, h.once, h'.once]
    by_cases hm : b ∈ m <;> by_cases hm' : b ∈ m' <;> simp_all

/-- Nothing is consumed by events that take nothing down, before or after. -/
theorem quiet_append (hq : Quiet es) (h : Consumes es' m) : Consumes (es ++ es') m := by
  have key := (of_quiet hq).append h fun b hb ↦ absurd hb (EventMask.not_mem_empty b)
  rwa [EventMask.empty_union] at key

theorem append_quiet (h : Consumes es m) (hq : Quiet es') : Consumes (es ++ es') m := by
  have key := h.append (of_quiet hq) fun b _ ↦ EventMask.not_mem_empty b
  rwa [EventMask.union_empty] at key

/-- What is consumed is what is taken down. -/
theorem mem_iff (h : Consumes es m) {b : Nat} : b ∈ m ↔ ∃ e ∈ es, b ∈ e.clears := by
  have key := h.once b
  by_cases hb : b ∈ m
  · rw [if_pos hb] at key
    have hpos : 0 < es.countP fun e ↦ decide (b ∈ e.clears) := by omega
    rw [List.countP_pos_iff] at hpos
    simpa [hb] using hpos
  · rw [if_neg hb, List.countP_eq_zero] at key
    simpa [hb] using key

/-- What is consumed was up at a look. -/
theorem exists_look (h : Consumes es m) {b : Nat} (hb : b ∈ m) :
    ∃ up, .look up ∈ es ∧ b ∈ up := by
  obtain ⟨e, he, hclears⟩ := h.mem_iff.1 hb
  obtain ⟨before, after, hsplit⟩ := List.append_of_mem he
  obtain ⟨earlier, up, rfl, hup⟩ := h.looked before e after b hsplit hclears
  exact ⟨up, by simp [hsplit], hup⟩

end Consumes

/-! ## The operations that a wait is built from -/

section Paths

variable {v : Verbosity} {n n' : Nat} {es : List Event}

theorem consumes_taking (up m : EventMask) : Consumes (taking up m) (up ∩ m) := by
  rw [taking]
  split
  · next h =>
    rw [EventMask.isEmpty_iff.1 h]
    exact .of_quiet (quiet_singleton (.look up) rfl)
  · exact .of_look up m

/-- A record takes nothing down. -/
theorem Records.quiet (h : Records es) : Quiet es := by
  intro e he
  obtain ⟨s, text, rfl⟩ := h e he
  exact ⟨.report s text, rfl⟩

theorem consumes_take {m seen : EventMask} (h : (take m).Does v n es seen n') :
    Consumes es seen ∧ seen ⊆ m := by
  obtain ⟨up, rfl, rfl, -⟩ := does_take_iff.1 h
  exact ⟨consumes_taking up m, EventMask.inter_subset_right up m⟩

/-! ## Waits for one of several lines -/

/-- What a turn of a wait has taken: what it stops with. -/
def taken {σ α : Type} (lines : α → EventMask) : Driver.Turn σ α → EventMask
  | .again _ => ∅
  | .stop a => lines a

/-- A loop consumes what its last turn does, if the turns that go on have taken nothing. -/
theorem consumes_loop {σ α : Type} {μ : σ → Nat} {body : σ → Driver (Driver.Turn σ α)}
    {lines : α → EventMask} {m : EventMask}
    (hbody : ∀ s n es turn n', (body s).Does v n es turn n' →
      Consumes es (taken lines turn) ∧ taken lines turn ⊆ m)
    {s : σ} {a : α} (h : (Driver.loop μ body s).Does v n es a n') :
    Consumes es (lines a) ∧ lines a ⊆ m := by
  refine Driver.does_loop (R := fun _ es a ↦ Consumes es (lines a) ∧ lines a ⊆ m) ?_ ?_ h
  · exact fun s n es a n' h ↦ hbody s n es (.stop a) n' h
  · rintro s n es s' n' es' a h ⟨hc, hm⟩
    have key := (hbody s n es _ n' h).1.append hc fun b hb ↦ absurd hb (EventMask.not_mem_empty b)
    rw [taken, EventMask.empty_union] at key
    exact ⟨key, hm⟩

theorem consumes_pollTurn {m : EventMask} {budget : Budget} {elapsed : UInt32}
    {turn : Driver.Turn UInt32 EventMask} (h : (pollTurn m budget elapsed).Does v n es turn n') :
    Consumes es (taken id turn) ∧ taken id turn ⊆ m := by
  obtain ⟨up, records, hrecords, ⟨hnone, rfl, hturn⟩ | ⟨-, rfl, rfl⟩⟩ := does_pollTurn h
  · have hquiet : Quiet [.look up, .spin pollQuantum] :=
      List.forall_mem_cons.2 ⟨⟨.look up, rfl⟩, quiet_singleton (.spin _) rfl⟩
    have hc : Consumes (.look up :: .spin pollQuantum :: records) ∅ :=
      (Consumes.of_quiet hquiet).append_quiet hrecords.quiet
    obtain ⟨-, rfl⟩ | ⟨-, -, rfl⟩ := hturn
    · exact ⟨hc, EventMask.empty_subset m⟩
    · exact ⟨hc, EventMask.empty_subset m⟩
  · exact ⟨(Consumes.of_look up m).append_quiet hrecords.quiet, EventMask.inter_subset_right up m⟩

theorem consumes_poll {m seen : EventMask} {budget : Budget}
    (h : (poll m budget).Does v n es seen n') : Consumes es seen ∧ seen ⊆ m := by
  have key : Consumes es (id seen) ∧ id seen ⊆ m :=
    consumes_loop (fun _ _ _ _ _ ↦ consumes_pollTurn) h
  exact key

theorem quiet_asking (m waking : EventMask) : Quiet (asking m waking) := by
  refine List.forall_mem_cons.2 ⟨⟨.waking waking, rfl⟩, ?_⟩
  split
  · exact quiet_nil
  · exact quiet_singleton (.wake m) rfl

/-- A nap consumes what it takes. -/
theorem consumes_nap (x : Nap) (m : EventMask) : Consumes (x.events m) (x.seen m) := by
  refine Consumes.quiet_append (quiet_asking m x.waking) ?_
  have hfirst := consumes_taking x.first m
  rw [Nap.looks, Nap.seen]
  split
  · next hnone =>
    rw [EventMask.isEmpty_iff.1 hnone] at hfirst
    have hquiet : Quiet [.suspend] := quiet_singleton .suspend rfl
    have hsleep : Consumes (.suspend :: taking x.second m) (x.second ∩ m) :=
      (consumes_taking x.second m).quiet_append hquiet
    have hboth := hfirst.append hsleep fun b hb ↦ absurd hb (EventMask.not_mem_empty b)
    rwa [EventMask.empty_union] at hboth
  · rwa [List.append_nil]

theorem Nap.seen_subset (x : Nap) (m : EventMask) : x.seen m ⊆ m := by
  rw [Nap.seen]
  split
  · exact EventMask.inter_subset_right x.second m
  · exact EventMask.inter_subset_right x.first m

theorem consumes_suspend {m seen : EventMask} (h : (suspend m).Does v n es seen n') :
    Consumes es seen ∧ seen ⊆ m := by
  obtain ⟨x, records, rfl, rfl, -, hrecords⟩ := does_suspend h
  exact ⟨(consumes_nap x m).append_quiet hrecords.quiet, x.seen_subset m⟩

theorem consumes_wait {m seen : EventMask} {mode : WaitMode} {budget : Budget}
    (h : (wait m mode budget).Does v n es seen n') : Consumes es seen ∧ seen ⊆ m := by
  cases mode
  · exact consumes_poll h
  · exact consumes_suspend h

/-- The lines that an answer tells of. -/
def told : Except WaitError EventMask → EventMask
  | .ok m => m
  | .error _ => ∅

theorem consumes_waitAnyTurn {m : EventMask} {mode : WaitMode} {budget : Budget}
    {turn : Driver.Turn Unit (Except WaitError EventMask)}
    (h : (waitAnyTurn m mode budget).Does v n es turn n') :
    Consumes es (taken told turn) ∧ taken told turn ⊆ m := by
  obtain ⟨es', seen, records, hwait, rfl, hrecords, hturn⟩ := does_waitAnyTurn h
  obtain ⟨hc, hm⟩ := consumes_wait hwait
  have hc : Consumes (es' ++ records) seen := hc.append_quiet hrecords.quiet
  obtain ⟨-, rfl⟩ | ⟨hnone, hturn⟩ := hturn
  · exact ⟨hc, hm⟩
  · rw [EventMask.isEmpty_iff.1 hnone] at hc
    obtain ⟨-, rfl⟩ | ⟨-, -, rfl⟩ := hturn
    · exact ⟨hc, EventMask.empty_subset m⟩
    · exact ⟨hc, EventMask.empty_subset m⟩

theorem consumes_waitAnyOf {m : EventMask} {mode : WaitMode} {budget : Budget}
    {answer : Except WaitError EventMask} (h : (waitAnyOf m mode budget).Does v n es answer n') :
    Consumes es (told answer) ∧ told answer ⊆ m := by
  rw [waitAnyOf] at h
  split at h
  · obtain ⟨rfl, rfl, -⟩ := Driver.does_pure_iff.1 h
    exact ⟨.nil, EventMask.empty_subset m⟩
  · exact consumes_loop (fun _ _ _ _ _ ↦ consumes_waitAnyTurn) h

/-! ## Waits for all of several lines -/

/-- Going from one tally to the next consumes what the tally gains, and that was missing. -/
def Gains (required : EventMask) (t : Tally) (es : List Event) (t' : Tally) : Prop :=
  ∃ m, Consumes es m ∧ m ⊆ t.missing required ∧ t'.total = t.total ∪ m

theorem gains_nil (required : EventMask) (t : Tally) : Gains required t [] t :=
  ⟨∅, .nil, EventMask.empty_subset _, (EventMask.union_empty t.total).symm⟩

/-- A round that asks for what is missing gains what it sees. -/
theorem gains_add {required : EventMask} {t : Tally} {r : Round}
    (hrequested : r.requested = t.missing required) (hc : Consumes es r.seen)
    (hseen : r.seen ⊆ r.requested) : Gains required t es (t.add r) :=
  ⟨r.seen, hc, hrequested ▸ hseen, rfl⟩

/-- What is gained adds up: what a round has seen is not missing afterwards. -/
theorem Gains.trans {required : EventMask} {t t' t'' : Tally} {es' : List Event}
    (h : Gains required t es t') (h' : Gains required t' es' t'') :
    Gains required t (es ++ es') t'' := by
  obtain ⟨m, hc, hm, htotal⟩ := h
  obtain ⟨m', hc', hm', htotal'⟩ := h'
  have hmissing : ∀ b, b ∈ m' → b ∈ t.missing required ∧ ¬ b ∈ m := by
    intro b hb
    have key := EventMask.subset_iff.1 hm' b hb
    rw [Tally.missing, htotal, EventMask.sdiff_union] at key
    exact EventMask.mem_sdiff.1 key
  refine ⟨m ∪ m', hc.append hc' fun b hb hb' ↦ (hmissing b hb').2 hb, ?_, ?_⟩
  · exact EventMask.union_subset.2 ⟨hm, EventMask.subset_iff.2 fun b hb ↦ (hmissing b hb).1⟩
  · rw [htotal', htotal, EventMask.union_assoc]

/-- What was gained since the beginning is the total. -/
theorem Gains.of_empty {required : EventMask} {t : Tally} (h : Gains required .empty es t) :
    Consumes es t.total ∧ t.total ⊆ required := by
  obtain ⟨m, hc, hm, htotal⟩ := h
  obtain rfl : t.total = m := htotal.trans (EventMask.empty_union m)
  exact ⟨hc, EventMask.subset_trans hm (EventMask.sdiff_subset required ∅)⟩

/-- A round of a wait that sleeps consumes what it says it saw. -/
theorem consumes_suspendRound {required : EventMask} {t : Tally} {turn : Driver.Turn Tally Tally}
    (h : (suspendRound required t).Does v n es turn n') :
    required ⊆ t.total ∧ es = [] ∧ turn = .stop t ∨
      ¬ required ⊆ t.total ∧ ∃ r : Round, r.requested = t.missing required ∧
        Consumes es r.seen ∧ r.seen ⊆ r.requested ∧ turn = .again (t.add r) := by
  obtain ⟨hall, rfl, rfl⟩ | ⟨hmissing, es', seen, n₁, records, hsuspend, rfl, hrecords, rfl⟩ :=
    does_suspendRound h
  · exact .inl ⟨hall, rfl, rfl⟩
  · obtain ⟨hc, hm⟩ := consumes_suspend hsuspend
    exact .inr ⟨hmissing, ⟨t.missing required, none, seen⟩, rfl, hc.append_quiet hrecords.quiet, hm,
      rfl⟩

/-- **The rounds of a wait that sleeps consume all of the required lines.** -/
theorem consumes_suspendRounds {required : EventMask} {t : Tally}
    (h : (suspendRounds required).Does v n es t n') :
    Consumes es required ∧ t.total = required := by
  have key : Gains required .empty es t ∧ required ⊆ t.total := by
    refine Driver.does_loop (R := fun t es t' ↦ Gains required t es t' ∧ required ⊆ t'.total)
      ?_ ?_ h
    · intro t n es t' n' h
      obtain ⟨hall, rfl, hturn⟩ | ⟨-, r, -, -, -, hturn⟩ := consumes_suspendRound h
      · obtain rfl := Driver.Turn.stop.inj hturn
        exact ⟨gains_nil required _, hall⟩
      · exact nomatch hturn
    · rintro t n es t₁ n' es' t' h ⟨hgains, hall⟩
      obtain ⟨-, -, hturn⟩ | ⟨-, r, hrequested, hc, hseen, hturn⟩ := consumes_suspendRound h
      · exact nomatch hturn
      · obtain rfl := Driver.Turn.again.inj hturn
        exact ⟨(gains_add hrequested hc hseen).trans hgains, hall⟩
  obtain ⟨hc, hm⟩ := key.1.of_empty
  obtain htotal := EventMask.subset_antisymm hm key.2
  rw [htotal] at hc
  exact ⟨hc, htotal⟩

/-- A round consumes what it says it saw, and is the last one if nothing is missing then. -/
theorem consumes_pollRound {required : EventMask} {plan : WaitPlan} {c : Charged}
    {turn : Driver.Turn Charged (Except WaitError Unit × Tally)}
    (h : (pollRound required plan c).Does v n es turn n') :
    ∃ r : Round, r.requested = c.tally.missing required ∧ Consumes es r.seen ∧
      r.seen ⊆ r.requested ∧
      (turn = .stop (.ok (), c.tally.add r) ∧ required ⊆ (c.tally.add r).total ∨
        ¬ required ⊆ (c.tally.add r).total ∧ (turn = .stop (.error .timeout, c.tally.add r) ∨
          ∃ elapsed, turn = .again ⟨c.tally.add r, elapsed⟩)) := by
  obtain ⟨limit, seen, n₁, polled, records, -, hpoll, rfl, hrecords, rfl⟩ := does_pollRound h
  obtain ⟨hc, hm⟩ := consumes_poll hpoll
  refine ⟨⟨c.tally.missing required, some limit, seen⟩, rfl, hc.append_quiet hrecords.quiet, hm, ?_⟩
  obtain ⟨hall, hturn⟩ | ⟨hmissing, ⟨-, hturn⟩ | ⟨-, hturn⟩⟩ := c.verdict_cases required plan _
  · exact .inl ⟨hturn, hall⟩
  · exact .inr ⟨hmissing, .inl hturn⟩
  · exact .inr ⟨hmissing, .inr ⟨_, hturn⟩⟩

/-- The rounds of a polling wait end well exactly if nothing is missing then. -/
def Polled (required : EventMask) (c : Charged) (es : List Event)
    (a : Except WaitError Unit × Tally) : Prop :=
  Gains required c.tally es a.2 ∧
    (a.1 = .ok () ∧ required ⊆ a.2.total ∨ a.1 = .error .timeout ∧ ¬ required ⊆ a.2.total)

theorem polled_pollRounds {required : EventMask} {plan : WaitPlan}
    {a : Except WaitError Unit × Tally} (h : (pollRounds required plan).Does v n es a n') :
    Polled required ⟨.empty, 0⟩ es a := by
  refine Driver.does_loop (R := Polled required) ?_ ?_ h
  · intro c n es a n' h
    obtain ⟨r, hrequested, hc, hseen, hend⟩ := consumes_pollRound h
    rcases hend with ⟨hturn, hall⟩ | ⟨hnot, hturn | ⟨elapsed, hturn⟩⟩
    · obtain rfl := Driver.Turn.stop.inj hturn
      exact ⟨gains_add hrequested hc hseen, .inl ⟨rfl, hall⟩⟩
    · obtain rfl := Driver.Turn.stop.inj hturn
      exact ⟨gains_add hrequested hc hseen, .inr ⟨rfl, hnot⟩⟩
    · exact nomatch hturn
  · rintro c n es c' n' es' a h ⟨hgains, hend⟩
    obtain ⟨r, hrequested, hc, hseen, hturn⟩ := consumes_pollRound h
    rcases hturn with ⟨hturn, -⟩ | ⟨-, hturn | ⟨elapsed, hturn⟩⟩
    · exact nomatch hturn
    · exact nomatch hturn
    · obtain rfl := Driver.Turn.again.inj hturn
      exact ⟨(gains_add hrequested hc hseen).trans hgains, hend⟩

/-- **A polling wait consumes all of the required lines or, if its time runs out, not all.** -/
theorem consumes_waitAll {plan : WaitPlan} (hmode : plan.mode = .polling)
    {answer : Except WaitError EventMask} (h : (waitAll plan).Does v n es answer n') :
    ∃ m, Consumes es m ∧ m ⊆ plan.required ∧
      (answer = .ok m ∧ m = plan.required ∨ answer = .error .timeout ∧ m ≠ plan.required ∨
        answer = .error .emptyMask ∧ m = ∅) := by
  obtain ⟨⟨answer, rounds⟩, rfl, h⟩ := Driver.does_bind_pure_iff.1 h
  obtain ⟨-, rfl, rfl⟩ | ⟨es', outcome, t, n₁, records, rfl, -, hrecords, hrounds⟩ :=
    does_waitAllRounds h
  · exact ⟨∅, .nil, EventMask.empty_subset _, .inr (.inr ⟨rfl, rfl⟩)⟩
  obtain ⟨hsuspend, -⟩ | ⟨-, hrounds, rfl⟩ := hrounds
  · exact nomatch hmode.symm.trans hsuspend
  obtain ⟨hgains, hend⟩ := polled_pollRounds hrounds
  obtain ⟨hc, hm⟩ := hgains.of_empty
  refine ⟨t.total, hc.append_quiet hrecords.quiet, hm, ?_⟩
  rcases hend with ⟨houtcome, hall⟩ | ⟨houtcome, hnot⟩
  · obtain rfl : outcome = .ok () := houtcome
    exact .inl ⟨rfl, EventMask.subset_antisymm hm hall⟩
  · obtain rfl : outcome = .error .timeout := houtcome
    refine .inr (.inl ⟨rfl, fun he ↦ hnot ?_⟩)
    rw [he]
    exact EventMask.subset_refl _

end Paths

end EventUnit
end TileEvents
