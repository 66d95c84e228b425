import TileEvents.Proofs.Begins
import TileEvents.Proofs.Operations

/-!
# What a wait uses

Which registers a wait touches depends on how it blocks.  One that polls looks, takes down what it
saw, and spins.  One that sleeps also asks which lines wake the hart and adds to them, and it puts
the hart to sleep instead (`Event.OfMode`).

Every wait is a series of uses of one of the two ways to block, and each of them asks for what the
one before has not taken (`Uses`).  In each of them lines are only taken down right after a look,
and only those of the asked for lines that the look found up (`Orderly`).

All this holds up to any point of a run, so it holds of a wait that never returns or whose hardware
breaks off.
-/

set_option autoImplicit false

namespace TileEvents

/-- What a wait that blocks in this mode does to the hardware. -/
inductive Event.OfMode : WaitMode → Event → Prop
  | look {mode : WaitMode} (up : EventMask) : OfMode mode (.look up)
  | takeDown {mode : WaitMode} (m : EventMask) : OfMode mode (.takeDown m)
  | spin : OfMode .polling (.spin pollQuantum)
  /-- Asks which lines wake the hart. -/
  | waking (m : EventMask) :
      OfMode .suspend (.read .eventUnit EventUnit.Register.irqMask.offset m.bits)
  /-- Has more lines wake the hart. -/
  | wake (m : EventMask) :
      OfMode .suspend (.write .eventUnit EventUnit.Register.irqMaskOr.offset m.bits)
  | suspend : OfMode .suspend .suspend
  /-- A record is no access. -/
  | report {mode : WaitMode} (s : Severity) (text : String) : OfMode mode (.report s text)

/-- Lines are taken down, some or none. -/
def Event.takesDown : Event → Bool
  | write .eventUnit o _ => o == EventUnit.Register.bufferClear.offset
  | _ => false

namespace EventUnit

/-- Lines are only taken down directly after a look, and then exactly those of the asked for lines
that the look found up, which are some. -/
def Guarded (requested : EventMask) (es : List Event) : Prop :=
  ∀ before m after, es = before ++ .takeDown m :: after →
    m.isEmpty = false ∧ ∃ earlier up, before = earlier ++ [.look up] ∧ m = up ∩ requested

/-- What a way to block does that was asked for these lines. -/
structure Orderly (mode : WaitMode) (requested : EventMask) (es : List Event) : Prop where
  ofMode : ∀ e ∈ es, e.OfMode mode
  guarded : Guarded requested es

section Paths

variable {mode : WaitMode} {m requested : EventMask} {v : Verbosity} {n n' : Nat}
  {es es' : List Event}

theorem guarded_iff : Guarded requested es ↔ EachAfter (fun before e ↦ ∀ m, e = .takeDown m →
    m.isEmpty = false ∧ ∃ earlier up, before = earlier ++ [.look up] ∧ m = up ∩ requested) es := by
  constructor
  · rintro h before e after hs m rfl
    exact h before m after hs
  · exact fun h before m after hs ↦ h before _ after hs m rfl

theorem Guarded.append (h : Guarded requested es) (h' : Guarded requested es') :
    Guarded requested (es ++ es') := by
  refine guarded_iff.2 (eachAfter_append_iff.2 ⟨guarded_iff.1 h, ?_⟩)
  rintro before e after hs m rfl
  obtain ⟨hsome, earlier, up, rfl, hm⟩ := h' before m after hs
  exact ⟨hsome, es ++ earlier, up, (List.append_assoc _ _ _).symm, hm⟩

namespace Orderly

theorem append (h : Orderly mode requested es) (h' : Orderly mode requested es') :
    Orderly mode requested (es ++ es') :=
  ⟨List.forall_mem_append.2 ⟨h.ofMode, h'.ofMode⟩, h.guarded.append h'.guarded⟩

/-- Up to any point of it, what is done is orderly. -/
theorem of_isPrefix (h : Orderly mode requested es') (hpart : es <+: es') :
    Orderly mode requested es := by
  obtain ⟨rest, rfl⟩ := hpart
  refine ⟨fun e he ↦ h.ofMode e (List.mem_append_left rest he), ?_⟩
  rintro before m after rfl
  exact h.guarded before m (after ++ rest) (by simp)

/-- Where nothing is written to the clearing register, there is nothing to guard. -/
theorem of_forall (h : ∀ e ∈ es, e.OfMode mode ∧ e.takesDown = false) :
    Orderly mode requested es where
  ofMode e he := (h e he).1
  guarded := by
    rintro before m after rfl
    exact absurd (h (.takeDown m) (by simp)).2.symm Bool.false_ne_true

theorem nil : Orderly mode requested [] := of_forall fun _ he ↦ absurd he List.not_mem_nil

theorem singleton {e : Event} (h : e.OfMode mode) (hquiet : e.takesDown = false) :
    Orderly mode requested [e] :=
  of_forall (List.forall_mem_singleton.2 ⟨h, hquiet⟩)

theorem of_records (h : Records es) : Orderly mode requested es := by
  refine of_forall fun e he ↦ ?_
  obtain ⟨s, text, rfl⟩ := h e he
  exact ⟨.report s text, rfl⟩

end Orderly

/-! ## The two ways to block -/

theorem orderly_taking (mode : WaitMode) (up m : EventMask) : Orderly mode m (taking up m) := by
  rw [taking]
  split
  · exact .singleton (.look up) rfl
  · next hsome =>
    refine ⟨?_, ?_⟩
    · simp only [List.mem_cons, List.not_mem_nil, or_false, forall_eq_or_imp, forall_eq]
      exact ⟨.look up, .takeDown _⟩
    · intro before m' after h
      rcases before with _ | ⟨e₁, _ | ⟨e₂, before⟩⟩
      · exact absurd (congrArg Event.takesDown (List.cons.inj h).1) Bool.false_ne_true
      · simp only [List.cons_append, List.nil_append, List.cons.injEq] at h
        obtain ⟨rfl, hwrite, -⟩ := h
        obtain rfl : up ∩ m = m' := Event.takeDown_inj hwrite
        exact ⟨Bool.eq_false_iff.2 hsome, [], up, rfl, rfl⟩
      · simp at h

theorem begins_take (h : (take m).Begins v n es) : ∃ up, es <+: taking up m := by
  rw [take, Driver.begins_bind_iff] at h
  rcases h with h | ⟨es₁, seen, n₁, es₂, rfl, hobserve, h⟩
  · rw [observe, pendingMasked, Driver.begins_bind_pure_iff, readLines,
      Driver.begins_bind_pure_iff] at h
    rcases Driver.begins_read h with rfl | ⟨up, rfl⟩
    · exact ⟨∅, List.nil_prefix⟩
    · exact ⟨⟨up⟩, _, rfl⟩
  · obtain ⟨up, rfl, rfl, rfl⟩ := does_observe_iff.1 hobserve
    refine ⟨up, ?_⟩
    rw [taking]
    split at h
    · obtain rfl := Driver.begins_pure_iff.1 h
      exact ⟨_, rfl⟩
    · next hsome =>
      rw [if_neg hsome]
      rw [Driver.begins_bind_pure_iff] at h
      rcases Driver.begins_write h with rfl | rfl
      · exact ⟨_, rfl⟩
      · exact List.prefix_rfl

theorem orderly_take (h : (take m).Begins v n es) : Orderly mode m es := by
  obtain ⟨up, hpart⟩ := begins_take h
  exact (orderly_taking mode up m).of_isPrefix hpart

theorem records_of_begins_report {s : Severity} {text : Unit → String}
    (h : (Driver.report s text).Begins v n es) : Records es := by
  rcases Driver.begins_report h with rfl | rfl
  · exact records_nil
  · exact List.forall_mem_singleton.2 ⟨s, text (), rfl⟩

theorem orderly_spin (h : (Driver.spin pollQuantum).Begins v n es) :
    Orderly .polling requested es := by
  rcases Driver.begins_spin h with rfl | rfl
  · exact .nil
  · exact .singleton .spin rfl

theorem orderly_pollTurn {budget : Budget} {elapsed : UInt32}
    (h : (pollTurn m budget elapsed).Begins v n es) : Orderly .polling m es := by
  rw [pollTurn, Driver.begins_bind_iff] at h
  rcases h with h | ⟨es₁, seen, n₁, es₂, rfl, htake, h⟩
  · exact orderly_take h
  refine (orderly_take htake.begins).append ?_
  split at h
  · rw [Driver.begins_bind_iff] at h
    rcases h with h | ⟨es₃, u, n₂, es₄, rfl, hspin, h⟩
    · exact orderly_spin h
    refine (orderly_spin hspin.begins).append (.of_records ?_)
    dsimp only at h
    split at h
    · rw [Driver.begins_bind_pure_iff] at h
      exact records_of_begins_report h
    · obtain rfl := Driver.begins_pure_iff.1 h
      exact records_nil
  · rw [Driver.begins_bind_pure_iff] at h
    exact .of_records (records_of_begins_report h)

theorem orderly_poll {budget : Budget} (h : (poll m budget).Begins v n es) :
    Orderly .polling m es :=
  Driver.begins_loop (R := fun _ es ↦ Orderly .polling m es)
    (fun _ _ _ hturn ↦ orderly_pollTurn hturn)
    (fun _ _ _ _ _ _ hturn hrest ↦ (orderly_pollTurn hturn.begins).append hrest) h

theorem begins_sleepOnce (h : (sleepOnce m).Begins v n es) :
    ∃ second records, es <+: .suspend :: (taking second m ++ records) ∧ Records records := by
  rw [sleepOnce, Driver.begins_bind_iff] at h
  rcases h with h | ⟨es₁, u, n₁, es₂, rfl, hwoke, h⟩
  · refine ⟨∅, [], ?_, records_nil⟩
    rcases Driver.begins_suspend h with rfl | rfl
    · exact List.nil_prefix
    · exact ⟨_, rfl⟩
  obtain ⟨rfl, -⟩ := Driver.does_suspend_iff.1 hwoke
  rw [Driver.begins_bind_iff] at h
  rcases h with h | ⟨es₃, seen, n₂, es₄, rfl, htake, h⟩
  · obtain ⟨second, hpart⟩ := begins_take h
    refine ⟨second, [], (List.prefix_cons_inj _).2 ?_, records_nil⟩
    rw [List.append_nil]
    exact hpart
  · obtain ⟨second, rfl, -, -⟩ := does_take_iff.1 htake
    rw [Driver.begins_bind_pure_iff] at h
    exact ⟨second, es₄, List.prefix_rfl, records_of_begins_report h⟩

theorem begins_sleepFor (waking : EventMask) (h : (sleepFor m).Begins v n es) :
    ∃ (x : Nap) (records : List Event), x.waking = waking ∧ es <+: x.looks m ++ records ∧
      Records records := by
  rw [sleepFor, Driver.begins_bind_iff] at h
  rcases h with h | ⟨es₁, seen, n₁, es₂, rfl, htake, h⟩
  · obtain ⟨first, hpart⟩ := begins_take h
    refine ⟨⟨waking, first, ∅⟩, [], rfl, hpart.trans ?_, records_nil⟩
    rw [Nap.looks, List.append_assoc]
    exact List.prefix_append _ _
  obtain ⟨first, rfl, rfl, rfl⟩ := does_take_iff.1 htake
  split at h
  · next hdown =>
    obtain ⟨second, records, hpart, hrecords⟩ := begins_sleepOnce h
    refine ⟨⟨waking, first, second⟩, records, rfl, ?_, hrecords⟩
    rw [Nap.looks_of_down hdown, List.append_assoc, List.prefix_append_right_inj]
    exact hpart
  · next hup =>
    obtain rfl := Driver.begins_pure_iff.1 h
    refine ⟨⟨waking, first, ∅⟩, [], rfl, ⟨[], ?_⟩, records_nil⟩
    rw [Nap.looks_of_up (Bool.eq_false_iff.2 hup)]
    exact List.append_nil _

/-- **What `suspend` has done up to any point is the beginning of a nap.** -/
theorem begins_suspend (h : (suspend m).Begins v n es) : ∃ (x : Nap) (records : List Event),
    es <+: x.events m ++ records ∧ Records records := by
  rw [suspend, Driver.begins_bind_iff] at h
  rcases h with h | ⟨es₁, waking, n₁, es₂, rfl, hwaking, h⟩
  · rw [irqEnabled, readLines, Driver.begins_bind_pure_iff] at h
    rcases Driver.begins_read h with rfl | ⟨waking, rfl⟩
    · exact ⟨⟨∅, ∅, ∅⟩, [], List.nil_prefix, records_nil⟩
    · exact ⟨⟨⟨waking⟩, ∅, ∅⟩, [], ⟨_, rfl⟩, records_nil⟩
  obtain ⟨rfl, rfl⟩ := does_readLines_iff.1 hwaking
  dsimp only at h
  split at h
  · next hasks =>
    have hasking : asking m waking = [.read .eventUnit Register.irqMask.offset waking.bits] ++
        [.write .eventUnit Register.irqMaskOr.offset m.bits] := by
      rw [asking, if_neg hasks]
      rfl
    rw [Driver.begins_bind_iff] at h
    rcases h with h | ⟨es₃, u, n₂, es₄, rfl, hwake, h⟩
    · refine ⟨⟨waking, ∅, ∅⟩, [], ?_, records_nil⟩
      rw [Nap.events, hasking]
      rcases Driver.begins_write h with rfl | rfl
      · exact ⟨_, rfl⟩
      · exact ⟨_, rfl⟩
    · obtain ⟨rfl, -⟩ := does_enableIrq_iff.1 hwake
      obtain ⟨x, records, rfl, hpart, hrecords⟩ := begins_sleepFor waking h
      refine ⟨x, records, ?_, hrecords⟩
      rw [Nap.events, hasking, List.append_assoc, ← List.append_assoc,
        List.prefix_append_right_inj]
      exact hpart
  · next hwakes =>
    obtain ⟨x, records, rfl, hpart, hrecords⟩ := begins_sleepFor waking h
    refine ⟨x, records, ?_, hrecords⟩
    rw [Nap.events, asking, if_pos (Classical.not_not.1 hwakes), List.append_assoc,
      List.prefix_append_right_inj]
    exact hpart

theorem orderly_asking (m waking : EventMask) : Orderly .suspend m (asking m waking) := by
  refine .of_forall (List.forall_mem_cons.2 ⟨⟨.waking waking, rfl⟩, ?_⟩)
  split
  · exact fun _ he ↦ absurd he List.not_mem_nil
  · exact List.forall_mem_singleton.2 ⟨.wake m, rfl⟩

theorem orderly_nap (x : Nap) (m : EventMask) : Orderly .suspend m (x.events m) := by
  refine (orderly_asking m x.waking).append ((orderly_taking .suspend x.first m).append ?_)
  split
  · exact (Orderly.singleton .suspend rfl).append (orderly_taking .suspend x.second m)
  · exact .nil

theorem orderly_suspend (h : (suspend m).Begins v n es) : Orderly .suspend m es := by
  obtain ⟨x, records, hpart, hrecords⟩ := begins_suspend h
  exact ((orderly_nap x m).append (.of_records hrecords)).of_isPrefix hpart

theorem orderly_wait {budget : Budget} (h : (wait m mode budget).Begins v n es) :
    Orderly mode m es := by
  cases mode with
  | polling => exact orderly_poll h
  | suspend => exact orderly_suspend h

/-! ## One use after the other -/

/-- One use of a way to block, and the records that are left after it. -/
structure Use where
  requested : EventMask
  events : List Event
  records : List Event

/-- All that happens in a use. -/
def Use.all (u : Use) : List Event := u.events ++ u.records

/-- Uses of the way to block of a mode, one after the other.  The first one asks for the given
lines, each of the others for what the one before it has not taken, and the last one may have been
broken off. -/
inductive Uses (mode : WaitMode) : EventMask → List Use → Prop
  | nil (requested : EventMask) : Uses mode requested []
  | broken {requested : EventMask} {limit : Budget} {v : Verbosity} {n : Nat} {es : List Event}
      (h : (wait requested mode limit).Begins v n es) : Uses mode requested [⟨requested, es, []⟩]
  | cons {requested seen : EventMask} {limit : Budget} {v : Verbosity} {n n' : Nat}
      {es records : List Event} {us : List Use}
      (h : (wait requested mode limit).Does v n es seen n') (hrecords : Records records)
      (hrest : Uses mode (requested \ seen) us) :
      Uses mode requested (⟨requested, es, records⟩ :: us)

theorem Uses.orderly {us : List Use} (h : Uses mode requested us) {u : Use} (hu : u ∈ us) :
    Orderly mode u.requested u.events ∧ Records u.records := by
  induction h with
  | nil => exact absurd hu List.not_mem_nil
  | broken h =>
    obtain rfl := List.mem_singleton.1 hu
    exact ⟨orderly_wait h, records_nil⟩
  | cons h hrecords _ ih =>
    rcases List.mem_cons.1 hu with rfl | hu
    · exact ⟨orderly_wait h.begins, hrecords⟩
    · exact ih hu

theorem Records.ofMode (h : Records es) : ∀ e ∈ es, e.OfMode mode := by
  intro e he
  obtain ⟨s, text, rfl⟩ := h e he
  exact .report s text

/-- All that happens in uses of a way to block is what its mode allows. -/
theorem Uses.ofMode {uses : List Use} (h : Uses mode requested uses) :
    ∀ e ∈ uses.flatMap Use.all, e.OfMode mode := by
  intro e he
  obtain ⟨u, hu, he⟩ := List.mem_flatMap.1 he
  obtain ⟨horderly, hrecords⟩ := h.orderly hu
  rcases List.mem_append.1 he with he | he
  · exact horderly.ofMode e he
  · exact hrecords.ofMode e he

/-- The events are those of some uses. -/
def AreUses (mode : WaitMode) (requested : EventMask) (es : List Event) : Prop :=
  ∃ us, Uses mode requested us ∧ es = us.flatMap Use.all

namespace AreUses

theorem nil : AreUses mode requested [] := ⟨[], .nil requested, rfl⟩

theorem of_begins (limit : Budget) (h : (wait requested mode limit).Begins v n es) :
    AreUses mode requested es :=
  ⟨[⟨requested, es, []⟩], .broken h, by simp [Use.all]⟩

theorem cons (limit : Budget) {seen : EventMask} {records : List Event}
    (h : (wait requested mode limit).Does v n es seen n') (hrecords : Records records)
    (hrest : AreUses mode (requested \ seen) es') :
    AreUses mode requested (es ++ records ++ es') := by
  obtain ⟨us, hus, rfl⟩ := hrest
  exact ⟨⟨requested, es, records⟩ :: us, .cons h hrecords hus, by simp [Use.all]⟩

/-- A use that was not followed by another one. -/
theorem of_does (limit : Budget) {seen : EventMask} {records : List Event}
    (h : (wait requested mode limit).Does v n es seen n') (hrecords : Records records) :
    AreUses mode requested (es ++ records) := by
  have key := cons limit h hrecords nil
  rwa [List.append_nil] at key

end AreUses

theorem areUses_waitAnyTurn {budget : Budget} (h : (waitAnyTurn m mode budget).Begins v n es) :
    AreUses mode m es := by
  unfold waitAnyTurn at h
  rw [Driver.begins_bind_iff] at h
  rcases h with h | ⟨es₁, seen, n₁, es₂, rfl, hwait, h⟩
  · exact .of_begins budget h
  refine .of_does budget hwait ?_
  split at h
  · cases mode with
    | polling =>
      rw [Driver.begins_bind_pure_iff] at h
      exact records_of_begins_report h
    | suspend =>
      obtain rfl := Driver.begins_pure_iff.1 h
      exact records_nil
  · obtain rfl := Driver.begins_pure_iff.1 h
    exact records_nil

/-- A turn that goes on has taken nothing, so the next one asks for the same. -/
theorem does_waitAnyTurn_again {budget : Budget} {u : Unit}
    (h : (waitAnyTurn m mode budget).Does v n es (.again u) n') :
    (wait m mode budget).Does v n es ∅ n' := by
  obtain ⟨es', seen, records, hwait, rfl, -, ⟨-, hturn⟩ | ⟨hnone, ⟨-, hturn⟩ | ⟨-, rfl, -⟩⟩⟩ :=
    does_waitAnyTurn h
  · simp at hturn
  · simp at hturn
  · rw [EventMask.isEmpty_iff.1 hnone] at hwait
    rwa [List.append_nil]

theorem areUses_waitAnyOf {budget : Budget} (h : (waitAnyOf m mode budget).Begins v n es) :
    AreUses mode m es := by
  rw [waitAnyOf] at h
  split at h
  · obtain rfl := Driver.begins_pure_iff.1 h
    exact .nil
  · refine Driver.begins_loop (R := fun _ es ↦ AreUses mode m es)
      (fun _ _ _ hturn ↦ areUses_waitAnyTurn hturn) (fun _ _ es _ _ es' hturn hrest ↦ ?_) h
    have key := AreUses.cons budget (does_waitAnyTurn_again hturn) records_nil
      (by rwa [EventMask.sdiff_empty])
    rwa [List.append_nil] at key

/-! ## Waits for all of several devices -/

theorem records_of_begins_reportRound {r : Round} (h : (reportRound r).Begins v n es) :
    Records es := by
  rw [reportRound] at h
  split at h
  · obtain rfl := Driver.begins_pure_iff.1 h
    exact records_nil
  · exact records_of_begins_report h

section Rounds

variable {required : EventMask}

theorem areUses_suspendRound {t : Tally} (h : (suspendRound required t).Begins v n es) :
    AreUses .suspend (t.missing required) es := by
  rw [suspendRound] at h
  split at h
  · obtain rfl := Driver.begins_pure_iff.1 h
    exact .nil
  · rw [Driver.begins_bind_iff] at h
    rcases h with h | ⟨es₁, seen, n₁, es₂, rfl, hsuspend, h⟩
    · exact .of_begins .unbounded h
    rw [Driver.begins_bind_pure_iff] at h
    exact .of_does .unbounded hsuspend (records_of_begins_reportRound h)

theorem areUses_suspendRounds (h : (suspendRounds required).Begins v n es) :
    AreUses .suspend required es := by
  have key : AreUses .suspend (Tally.empty.missing required) es := by
    refine Driver.begins_loop (R := fun t es ↦ AreUses .suspend (t.missing required) es)
      (fun _ _ _ hturn ↦ areUses_suspendRound hturn) (fun t _ es _ _ es' hturn hrest ↦ ?_) h
    obtain ⟨-, -, hturn⟩ | ⟨-, es₁, seen, n₁, records, hsuspend, rfl, hrecords, hturn⟩ :=
      does_suspendRound hturn
    · simp at hturn
    · obtain rfl := Driver.Turn.again.inj hturn
      rw [Tally.missing_add] at hrest
      exact .cons .unbounded hsuspend hrecords hrest
  exact EventMask.sdiff_empty required ▸ key

theorem areUses_pollRound {plan : WaitPlan} {c : Charged}
    (h : (pollRound required plan c).Begins v n es) :
    AreUses .polling (c.tally.missing required) es := by
  rw [pollRound] at h
  dsimp only at h
  split at h
  · obtain rfl := Driver.begins_fault_iff.1 h
    exact .nil
  · next limit _ =>
    rw [Driver.begins_bind_iff] at h
    rcases h with h | ⟨es₁, seen, n₁, es₂, rfl, hpoll, h⟩
    · exact .of_begins limit h
    refine .of_does limit hpoll ?_
    rw [Driver.begins_bind_iff] at h
    rcases h with h | ⟨es₃, u, n₂, es₄, rfl, hreport, h⟩
    · exact records_of_begins_reportRound h
    refine (records_of_reportRound hreport).append ?_
    split at h
    · obtain rfl := Driver.begins_pure_iff.1 h
      exact records_nil
    · split at h
      · rw [Driver.begins_bind_pure_iff] at h
        exact records_of_begins_report h
      · obtain rfl := Driver.begins_pure_iff.1 h
        exact records_nil

theorem areUses_pollRounds {plan : WaitPlan} (h : (pollRounds required plan).Begins v n es) :
    AreUses .polling required es := by
  have key : AreUses .polling (Tally.empty.missing required) es := by
    refine Driver.begins_loop (R := fun c es ↦ AreUses .polling (c.tally.missing required) es)
      (fun _ _ _ hturn ↦ areUses_pollRound hturn) (fun c _ es c' _ es' hturn hrest ↦ ?_) h
    obtain ⟨limit, seen, n₁, es₁, records, -, hpoll, rfl, hrecords, hturn⟩ := does_pollRound hturn
    obtain ⟨-, rfl⟩ := Charged.verdict_again hturn.symm
    rw [Tally.missing_add] at hrest
    exact .cons limit hpoll hrecords hrest
  exact EventMask.sdiff_empty required ▸ key

end Rounds

end Paths

end EventUnit
end TileEvents
