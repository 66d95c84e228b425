import TileEvents.Platform.Scripted
import TileEvents.Proofs.Careful
import TileEvents.Proofs.Interrupted
import TileEvents.Proofs.Silenced

/-!
# Sleeping in spite of spurious wakes

Hardware may wake the hart whenever it likes.  A wait for one of several lines then looks, finds
nothing and goes back to sleep, nap after nap, until a look finds one of its lines up.

So what becomes of it is decided by what its looks find (`WaitEnds`), as it is with a poll: it takes
what the first look finds that finds something, or it would nap for ever and can do so only as often
as the hart may be called.  Only the hardware can end it otherwise, by breaking off.  Each vain nap
has two looks and one sleep, so a wait that returns after `k` vain looks has slept half as often,
rounded up (`waitAnyOf_naps`).
-/

set_option autoImplicit false

namespace TileEvents

/-- What a look at the reported lines finds. -/
def Event.look? : Event → Option EventMask
  | read .eventUnit o value =>
    if o = EventUnit.Register.bufferMasked.offset then some ⟨value⟩ else none
  | _ => none

namespace EventUnit

variable {σ : Type} {p : Platform σ} {m : EventMask} {n : Nat} {s : σ} {x : Nap}

/-! ## One nap -/

/-- How a nap ends, with `n` calls of the hart left, of which `before` is over. -/
inductive NapEnds (p : Platform σ) (m : EventMask) (n : Nat) (x : Nap) (before : List Event) :
    Run σ (EventMask × Nat) → Prop
  | ended {es : List Event} {seen : EventMask} {k : Nat} {s' : σ} (hes : es = before ++ x.looks m)
      (hseen : seen = x.seen m) (hcalls : n = k + x.sleeps m) :
      NapEnds p m n x before ⟨es, .returned (seen, k) s'⟩
  /-- The hart would have to sleep once more than it may. -/
  | uncalled {es : List Event} (hdown : (x.first ∩ m).isEmpty = true)
      (hes : es = before ++ [.look x.first]) (hcalls : n = 0) :
      NapEnds p m n x before ⟨es, .exhausted⟩
  /-- The hardware breaks off. -/
  | broken {es : List Event} {why : Fault} (hes : es <+: before ++ x.looks m)
      (hwhy : p.BreaksOff why) : NapEnds p m n x before ⟨es, .faulted why⟩

theorem NapEnds.after {before : List Event} {r : Run σ (EventMask × Nat)}
    (h : NapEnds p m n x before r) (past : List Event) :
    NapEnds p m n x (past ++ before) (r.after past) := by
  cases h with
  | ended hes hseen hcalls =>
    exact .ended (by rw [hes, List.append_assoc]) hseen hcalls
  | uncalled hdown hes hcalls =>
    exact .uncalled hdown (by rw [hes, List.append_assoc]) hcalls
  | broken hes hwhy =>
    refine .broken ?_ hwhy
    rw [List.append_assoc]
    exact (List.prefix_append_right_inj past).2 hes

/-- A sleep, and a look after it. -/
theorem run_sleepOnce (p : Platform σ) (m : EventMask) (n : Nat) (s : σ) : ∃ second,
    n = 0 ∧ p.run ((sleepOnce m).program none n) s = ⟨[], .exhausted⟩ ∨
      (∃ k s', n = k + 1 ∧ p.run ((sleepOnce m).program none n) s =
        ⟨.suspend :: taking second m, .returned (second ∩ m, k) s'⟩) ∨
      ∃ es why, p.run ((sleepOnce m).program none n) s = ⟨es, .faulted why⟩ ∧
        es <+: .suspend :: taking second m ∧ p.BreaksOff why := by
  rw [sleepOnce, Driver.bind_program, Platform.run_bind]
  obtain ⟨rfl, hsleep⟩ | ⟨k, rfl, ⟨s₁, hsleep⟩ | ⟨why, hsleep, hwhy⟩⟩ := p.run_suspend none n s
  · rw [hsleep]
    exact ⟨∅, .inl ⟨rfl, rfl⟩⟩
  · rw [hsleep]
    dsimp only [Run.bind]
    rw [Driver.bind_program, Platform.run_bind]
    obtain ⟨second, ⟨s₂, htake⟩ | ⟨es, why, htake, hes, hwhy⟩⟩ := run_take p m none k s₁
    · rw [htake]
      have hevents : Event.suspend :: (taking second m ++ []) = .suspend :: taking second m := by
        rw [List.append_nil]
      exact ⟨second, .inr (.inl ⟨k, s₂, rfl, congrArg (Run.mk · _) hevents⟩)⟩
    · rw [htake]
      have hpart : es <+: taking second m := hes.trans ⟨_, rfl⟩
      exact ⟨second, .inr (.inr ⟨_, why, rfl, (List.prefix_cons_inj _).2 hpart, hwhy⟩)⟩
  · rw [hsleep]
    exact ⟨∅, .inr (.inr ⟨_, why, rfl, List.nil_prefix, hwhy⟩)⟩

/-- How it ends once its lines wake the hart. -/
theorem run_sleepFor (p : Platform σ) (m : EventMask) (n : Nat) (s : σ) (waking : EventMask) :
    ∃ x : Nap, x.waking = waking ∧
      NapEnds p m n x [] (p.run ((sleepFor m).program none n) s) := by
  rw [sleepFor, Driver.bind_program, Platform.run_bind]
  obtain ⟨first, ⟨s₁, htake⟩ | ⟨es, why, htake, hes, hwhy⟩⟩ := run_take p m none n s
  · rw [htake]
    dsimp only [Run.bind]
    cases hfirst : (first ∩ m).isEmpty with
    | false =>
      refine ⟨⟨waking, first, ∅⟩, rfl, .ended ?_ ?_ ?_⟩
      · rw [Nap.looks_of_up hfirst]
        exact List.append_nil _
      · rw [Nap.seen_of_up hfirst]
      · rw [Nap.sleeps_of_up hfirst, Nat.add_zero]
    | true =>
      rw [if_pos rfl]
      obtain ⟨second, ⟨rfl, hwake⟩ | ⟨k, s₂, rfl, hwake⟩ | ⟨es, why, hwake, hes, hwhy⟩⟩ :=
        run_sleepOnce p m n s₁
      · rw [hwake, taking, if_pos hfirst]
        exact ⟨⟨waking, first, second⟩, rfl, .uncalled hfirst rfl rfl⟩
      · rw [hwake]
        refine ⟨⟨waking, first, second⟩, rfl, .ended ?_ ?_ ?_⟩
        · rw [Nap.looks_of_down hfirst]
          rfl
        · rw [Nap.seen_of_down hfirst]
        · rw [Nap.sleeps_of_down hfirst]
      · rw [hwake]
        refine ⟨⟨waking, first, second⟩, rfl, .broken ?_ hwhy⟩
        rw [Nap.looks_of_down hfirst, List.nil_append]
        exact (List.prefix_append_right_inj _).2 hes
  · rw [htake]
    refine ⟨⟨waking, first, ∅⟩, rfl, .broken (hes.trans ?_) hwhy⟩
    exact ⟨_, rfl⟩

/-- How `suspend` ends, where no records are kept. -/
theorem run_nap (p : Platform σ) (m : EventMask) (n : Nat) (s : σ) : ∃ x : Nap,
    NapEnds p m n x (asking m x.waking) (p.run ((suspend m).program none n) s) := by
  rw [suspend, Driver.bind_program, Platform.run_bind, irqEnabled]
  obtain ⟨waking, s₁, hasked⟩ | ⟨why, hasked, hwhy⟩ := run_readLines p .irqMask none n s
  · rw [hasked]
    dsimp only [Run.bind]
    by_cases hwakes : m ⊆ waking
    · have hasking : asking m waking =
          [.read .eventUnit Register.irqMask.offset waking.bits] ++ [] := by
        rw [asking, if_pos hwakes, List.append_nil]
      obtain ⟨x, rfl, hends⟩ := run_sleepFor p m n s₁ waking
      rw [if_neg (Classical.not_not.2 hwakes)]
      refine ⟨x, ?_⟩
      rw [hasking]
      exact hends.after _
    · have hasking : asking m waking = [.read .eventUnit Register.irqMask.offset waking.bits] ++
          ([.write .eventUnit Register.irqMaskOr.offset m.bits] ++ []) := by
        rw [asking, if_neg hwakes, List.append_nil]
        rfl
      rw [if_pos hwakes, Driver.bind_program, Platform.run_bind, enableIrq, writeRegister]
      obtain ⟨s₂, hwake⟩ | ⟨why, hwake, hwhy⟩ :=
        p.run_write .eventUnit Register.irqMaskOr.offset m.bits none n s₁
      · obtain ⟨x, rfl, hends⟩ := run_sleepFor p m n s₂ waking
        rw [hwake]
        refine ⟨x, ?_⟩
        rw [hasking]
        exact (hends.after _).after _
      · rw [hwake]
        refine ⟨⟨waking, ∅, ∅⟩, .broken ?_ hwhy⟩
        exact ⟨_, rfl⟩
  · rw [hasked]
    exact ⟨⟨∅, ∅, ∅⟩, .broken List.nil_prefix hwhy⟩

/-! ## One nap after the other -/

/-- How a wait for one of several lines ends, with `n` calls of the hart left: these naps are in
vain, and then it is over. -/
inductive WaitEnds (p : Platform σ) (m : EventMask) (n : Nat) (naps : List Nap) :
    List Event → Outcome σ (Except WaitError EventMask × Nat) → Prop
  /-- The last nap finds something. -/
  | found {x : Nap} {k : Nat} {s' : σ} (hfound : (x.seen m).isEmpty = false)
      (hcalls : n = k + (naps.length + x.sleeps m)) :
      WaitEnds p m n naps (naps.flatMap (·.events m) ++ x.events m)
        (.returned (.ok (x.seen m), k) s')
  /-- The hart was called as often as it may be. -/
  | uncalled {x : Nap} (hdown : (x.first ∩ m).isEmpty = true) (hcalls : naps.length = n) :
      WaitEnds p m n naps (naps.flatMap (·.events m) ++ (asking m x.waking ++ [.look x.first]))
        .exhausted
  /-- The hardware breaks off. -/
  | broken {x : Nap} {es : List Event} {why : Fault} (hes : es <+: x.events m)
      (hwhy : p.BreaksOff why) :
      WaitEnds p m n naps (naps.flatMap (·.events m) ++ es) (.faulted why)

/-- One more nap before that was in vain. -/
theorem WaitEnds.cons {naps : List Nap} {es : List Event}
    {o : Outcome σ (Except WaitError EventMask × Nat)} (h : WaitEnds p m n naps es o) (x : Nap) :
    WaitEnds p m (n + 1) (x :: naps) (x.events m ++ es) o := by
  have hlength : (x :: naps).length = naps.length + 1 := rfl
  have hevents (es : List Event) : x.events m ++ (naps.flatMap (·.events m) ++ es) =
      (x :: naps).flatMap (·.events m) ++ es := by
    rw [List.flatMap_cons, List.append_assoc]
  cases h with
  | found hfound hcalls =>
    rw [hevents]
    exact .found hfound (by omega)
  | uncalled hdown hcalls =>
    rw [hevents]
    exact .uncalled hdown (by omega)
  | broken hes hwhy =>
    rw [hevents]
    exact .broken hes hwhy

/-- A nap that takes nothing has slept. -/
theorem Nap.down_of_vain (h : (x.seen m).isEmpty = true) : (x.first ∩ m).isEmpty = true := by
  cases hfirst : (x.first ∩ m).isEmpty with
  | true => rfl
  | false =>
    rw [Nap.seen_of_up hfirst, hfirst] at h
    exact h

/-- **How the naps of a wait end**, where no records are kept. -/
theorem run_waitAnyLoop (p : Platform σ) (m : EventMask) (b : Budget) (n : Nat) : ∀ s : σ,
    ∃ naps, (∀ x ∈ naps, (x.seen m).isEmpty = true) ∧
      WaitEnds p m n naps
        (p.run ((waitAnyLoop m .suspend b).program none n) s).events
        (p.run ((waitAnyLoop m .suspend b).program none n) s).outcome := by
  induction n using Nat.strongRecOn with
  | _ n ih =>
    intro s
    have hturn : waitAnyTurn m .suspend b = suspend m >>= fun seen ↦
        if seen.isEmpty then pure (.again ()) else pure (.stop (.ok seen)) := rfl
    rw [p.run_loop (descends_waitAnyTurn m .suspend b), hturn, Driver.bind_program,
      Platform.run_bind]
    obtain ⟨x, hends⟩ := run_nap p m n s
    generalize p.run ((suspend m).program none n) s = r at hends
    cases hends with
    | @ended es seen k s' hes hseen hcalls =>
      subst hes hseen hcalls
      dsimp only [Run.bind]
      cases hvain : (x.seen m).isEmpty with
      | true =>
        rw [if_pos rfl]
        rw [Nap.sleeps_of_down (Nap.down_of_vain hvain)] at ih ⊢
        obtain ⟨naps, hnaps, hends⟩ := ih k (Nat.lt_succ_self k) s'
        refine ⟨x :: naps, List.forall_mem_cons.2 ⟨hvain, hnaps⟩, ?_⟩
        show WaitEnds p m (k + 1) (x :: naps) (x.events m ++ [] ++ _) _
        rw [List.append_nil]
        exact hends.cons x
      | false =>
        refine ⟨[], fun _ h ↦ absurd h List.not_mem_nil, ?_⟩
        show WaitEnds p m (k + x.sleeps m) [] (x.events m ++ [] ++ []) _
        rw [List.append_nil, List.append_nil]
        exact .found hvain (by rw [List.length_nil, Nat.zero_add])
    | uncalled hdown hes hcalls =>
      subst hes hcalls
      exact ⟨[], fun _ h ↦ absurd h List.not_mem_nil, .uncalled hdown rfl⟩
    | broken hes hwhy => exact ⟨[], fun _ h ↦ absurd h List.not_mem_nil, .broken hes hwhy⟩

/-! ## What there is in naps -/

/-- In these events the looks find `ups`, the hart sleeps so often and never spins, and these are
the writes to the clearing register. -/
structure SumsTo (es : List Event) (ups : List EventMask) (sleeps : Nat) (downs : List Event) :
    Prop where
  looks : es.filterMap Event.look? = ups
  sleeps : es.countP Event.isSuspend = sleeps
  spins : es.countP Event.isSpin = 0
  downs : es.filter Event.takesDown = downs

section Sums

variable {es es' : List Event} {ups ups' : List EventMask} {k k' : Nat} {downs downs' : List Event}

theorem SumsTo.nil : SumsTo [] [] 0 [] := ⟨rfl, rfl, rfl, rfl⟩

theorem SumsTo.append (h : SumsTo es ups k downs) (h' : SumsTo es' ups' k' downs') :
    SumsTo (es ++ es') (ups ++ ups') (k + k') (downs ++ downs') where
  looks := by rw [List.filterMap_append, h.looks, h'.looks]
  sleeps := by rw [List.countP_append, h.sleeps, h'.sleeps]
  spins := by rw [List.countP_append, h.spins, h'.spins]
  downs := by rw [List.filter_append, h.downs, h'.downs]

theorem sumsTo_asking (m waking : EventMask) : SumsTo (asking m waking) [] 0 [] := by
  rw [asking]
  split <;> exact ⟨rfl, rfl, rfl, rfl⟩

theorem sumsTo_look (up : EventMask) : SumsTo [.look up] [up] 0 [] := ⟨rfl, rfl, rfl, rfl⟩

theorem sumsTo_suspend : SumsTo [.suspend] [] 1 [] := ⟨rfl, rfl, rfl, rfl⟩

theorem sumsTo_taking_of_down {up : EventMask} (h : (up ∩ m).isEmpty = true) :
    SumsTo (taking up m) [up] 0 [] := by
  rw [taking, if_pos h]
  exact ⟨rfl, rfl, rfl, rfl⟩

theorem sumsTo_taking_of_up {up : EventMask} (h : (up ∩ m).isEmpty = false) :
    SumsTo (taking up m) [up] 0 [.takeDown (up ∩ m)] := by
  rw [taking, if_neg (Bool.eq_false_iff.1 h)]
  exact ⟨rfl, rfl, rfl, rfl⟩

/-- A nap in vain: two looks and a sleep. -/
theorem sumsTo_of_vain (h : (x.seen m).isEmpty = true) :
    SumsTo (x.events m) [x.first, x.second] 1 [] := by
  have hfirst := Nap.down_of_vain h
  rw [Nap.seen_of_down hfirst] at h
  rw [Nap.events, Nap.looks_of_down hfirst]
  exact (sumsTo_asking m x.waking).append ((sumsTo_taking_of_down hfirst).append
    (sumsTo_suspend.append (sumsTo_taking_of_down h)))

/-- Naps in vain: twice as many looks as sleeps. -/
theorem sumsTo_naps {naps : List Nap} (h : ∀ x ∈ naps, (x.seen m).isEmpty = true) :
    ∃ ups, SumsTo (naps.flatMap (·.events m)) ups naps.length [] ∧ ups.length = 2 * naps.length ∧
      ∀ up ∈ ups, (up ∩ m).isEmpty = true := by
  induction naps with
  | nil => exact ⟨[], .nil, rfl, fun _ h ↦ absurd h List.not_mem_nil⟩
  | cons x naps ih =>
    obtain ⟨hx, hnaps⟩ := List.forall_mem_cons.1 h
    obtain ⟨ups, hsums, hlength, hups⟩ := ih hnaps
    have hfirst := Nap.down_of_vain hx
    refine ⟨x.first :: x.second :: ups, ?_, ?_, ?_⟩
    · rw [List.flatMap_cons, List.length_cons, Nat.add_comm]
      exact (sumsTo_of_vain hx).append hsums
    · rw [List.length_cons, List.length_cons, List.length_cons, hlength]
      omega
    · rw [Nap.seen_of_down hfirst] at hx
      exact List.forall_mem_cons.2 ⟨hfirst, List.forall_mem_cons.2 ⟨hx, hups⟩⟩

/-- **The last nap**: after `k` looks in vain, of which there are two for each sleep, there is one
more look, or a look in vain, a sleep and one more look. -/
theorem sumsTo_last {naps : List Nap} (hnaps : ∀ x ∈ naps, (x.seen m).isEmpty = true)
    (hfound : (x.seen m).isEmpty = false) : ∃ ups up,
    SumsTo (naps.flatMap (·.events m) ++ x.events m) (ups ++ [up]) ((ups.length + 1) / 2)
        [.takeDown (up ∩ m)] ∧
      (∀ up ∈ ups, (up ∩ m).isEmpty = true) ∧ x.seen m = up ∩ m ∧
      naps.length + x.sleeps m = (ups.length + 1) / 2 := by
  obtain ⟨ups, hsums, hlength, hups⟩ := sumsTo_naps hnaps
  cases hfirst : (x.first ∩ m).isEmpty with
  | false =>
    have hhalf : (ups.length + 1) / 2 = naps.length := by omega
    refine ⟨ups, x.first, ?_, hups, Nap.seen_of_up hfirst, ?_⟩
    · rw [hhalf, Nap.events, Nap.looks_of_up hfirst]
      exact hsums.append ((sumsTo_asking m x.waking).append (sumsTo_taking_of_up hfirst))
    · rw [hhalf, Nap.sleeps_of_up hfirst, Nat.add_zero]
  | true =>
    rw [Nap.seen_of_down hfirst] at hfound
    have hhalf : ((ups ++ [x.first]).length + 1) / 2 = naps.length + 1 := by
      rw [List.length_append, List.length_singleton]
      omega
    refine ⟨ups ++ [x.first], x.second, ?_, ?_, Nap.seen_of_down hfirst, ?_⟩
    · rw [hhalf, Nap.events, Nap.looks_of_down hfirst, List.append_assoc ups]
      exact hsums.append ((sumsTo_asking m x.waking).append ((sumsTo_taking_of_down hfirst).append
        (sumsTo_suspend.append (sumsTo_taking_of_up hfound))))
    · exact List.forall_mem_append.2 ⟨hups, List.forall_mem_singleton.2 hfirst⟩
    · rw [hhalf, Nap.sleeps_of_down hfirst]

end Sums

/-- **What a wait that sleeps makes of any hardware**, however often it is woken.

It naps in vain until a look finds one of its lines up, and ends there or where the hardware breaks
off; if it is exhausted, then its looks were all in vain and it would go on.  If it returns, then
after `k` looks in vain it has slept `k / 2` times, rounded up, and taken down what it returns and
nothing else.  It sleeps and has lines wake the hart only with care. -/
theorem waitAnyOf_naps {σ : Type} (p : Platform σ) {m : EventMask} (hm : m.isEmpty = false)
    (b : Budget) (v : Verbosity) (n : Nat) (s : σ) :
    let r := p.run ((waitAnyOf m .suspend b).program v n) s
    (∃ naps, (∀ x ∈ naps, (x.seen m).isEmpty = true) ∧
      WaitEnds p m n naps r.accesses r.outcome) ∧
    (∀ answer k s', r.outcome = .returned (answer, k) s' → ∃ ups up,
      (∀ up ∈ ups, (up ∩ m).isEmpty = true) ∧ (up ∩ m).isEmpty = false ∧ answer = .ok (up ∩ m) ∧
      SumsTo r.accesses (ups ++ [up]) ((ups.length + 1) / 2) [.takeDown (up ∩ m)] ∧
      n = k + (ups.length + 1) / 2) ∧
    (r.outcome = .exhausted → ∃ ups, (∀ up ∈ ups, (up ∩ m).isEmpty = true) ∧
      ups.length = 2 * n + 1 ∧ SumsTo r.accesses ups n []) ∧
    Careful (fun _ ↦ m) r.events := by
  intro r
  have hrun : p.run ((waitAnyOf m .suspend b).program none n) s = ⟨r.accesses, r.outcome⟩ :=
    (plain_waitAnyOf m .suspend b).run_none p v n s
  have hends : ∃ naps, (∀ x ∈ naps, (x.seen m).isEmpty = true) ∧
      WaitEnds p m n naps r.accesses r.outcome := by
    have hloop := run_waitAnyLoop p m b n s
    rw [waitAnyOf_eq .suspend b hm] at hrun
    rwa [hrun] at hloop
  refine ⟨hends, fun answer k s' hreturned ↦ ?_, fun hexhausted ↦ ?_,
    careful_waitAnyOf (Program.begins_run p _ s)⟩
  · obtain ⟨naps, hnaps, hends⟩ := hends
    rw [hreturned] at hends
    generalize r.accesses = es at hends ⊢
    cases hends with
    | found hfound hcalls =>
      obtain ⟨ups, up, hsums, hups, hseen, hsleeps⟩ := sumsTo_last hnaps hfound
      rw [hseen] at hfound ⊢
      exact ⟨ups, up, hups, hfound, rfl, hsums, by rw [hcalls, hsleeps]⟩
  · obtain ⟨naps, hnaps, hends⟩ := hends
    rw [hexhausted] at hends
    generalize r.accesses = es at hends ⊢
    cases hends with
    | @uncalled x hdown hcalls =>
      obtain ⟨ups, hsums, hlength, hups⟩ := sumsTo_naps hnaps
      rw [hcalls] at hsums hlength
      refine ⟨ups ++ [x.first], ?_, ?_, ?_⟩
      · exact List.forall_mem_append.2 ⟨hups, List.forall_mem_singleton.2 hdown⟩
      · rw [List.length_append, List.length_singleton, hlength]
      · exact hsums.append ((sumsTo_asking m x.waking).append (sumsTo_look x.first))

/-- Looks find nothing, the timer, nothing, and the accelerator. -/
def wokenByTimer : Scripted where
  eventUnit := .ofScript [(Register.bufferMasked.offset,
    [0, Line.timer0.mask.bits, 0, Line.accDone.mask.bits])]
  dma := []

/-- A wait for the accelerator takes two naps. -/
theorem waitAnyOf_naps_wokenByTimer : ∃ es s',
    Scripted.platform.run ((waitAnyOf Line.accDone.mask .suspend .default).program none 2)
        wokenByTimer = ⟨es, .returned (.ok Line.accDone.mask, 0) s'⟩ ∧
      SumsTo es [∅, Line.timer0.mask, ∅, Line.accDone.mask] 2 [.takeDown Line.accDone.mask] := by
  obtain ⟨es, s', hrun, hlooks, hes⟩ : ∃ es s',
      Scripted.platform.run ((waitAnyOf Line.accDone.mask .suspend .default).program none 2)
          wokenByTimer = ⟨es, .returned (.ok Line.accDone.mask, 0) s'⟩ ∧
        es.filterMap Event.look? = [∅, Line.timer0.mask, ∅] ++ [Line.accDone.mask] ∧
        (es.filter fun e ↦ e.record?.isNone) = es :=
    ⟨_, _, rfl, rfl, rfl⟩
  obtain ⟨-, hreturned, -⟩ := waitAnyOf_naps Scripted.platform (m := Line.accDone.mask) rfl
    .default none 2 wokenByTimer
  rw [hrun] at hreturned
  obtain ⟨ups, up, -, -, -, hsums, -⟩ := hreturned _ _ _ rfl
  replace hsums : SumsTo es (ups ++ [up]) ((ups.length + 1) / 2)
    [.takeDown (up ∩ Line.accDone.mask)] := hes ▸ hsums
  obtain ⟨rfl, hup⟩ := List.append_inj' (hsums.looks.symm.trans hlooks) rfl
  obtain rfl := List.singleton_inj.1 hup
  exact ⟨es, s', hrun, hsums⟩

end EventUnit
end TileEvents
