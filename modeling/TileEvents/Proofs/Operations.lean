import TileEvents.EventUnit.Single
import TileEvents.EventUnit.WaitAll
import TileEvents.Proofs.Path

/-!
# What the operations do

What happens in the operations of the event unit, event by event and on any hardware.  For each of
them there is one lemma that says all that it can do, in terms of the operations that it is built
from: a turn of `poll` is a look that may take something (`does_pollTurn`), a round of a wait for
all devices is a `poll` or a `suspend`, and what it saw decides how the wait goes on
(`does_pollRound`, `does_suspendRound`), and the whole wait is its rounds and what comes after them
(`waitAllRounds_asleep`, `waitAllRounds_polling`).

Whatever is proved of the waits later is proved from these lemmas, so a change to an operation
stops here.
-/

set_option autoImplicit false

namespace TileEvents

namespace Event

/-- A look at the reported lines that finds these up. -/
def look (up : EventMask) : Event := .read .eventUnit EventUnit.Register.bufferMasked.offset up.bits

/-- Lines are taken down. -/
def takeDown (m : EventMask) : Event :=
  .write .eventUnit EventUnit.Register.bufferClear.offset m.bits

theorem takeDown_inj {m m' : EventMask} (h : takeDown m = takeDown m') : m = m' :=
  congrArg EventMask.mk (write.inj h).2.2

end Event

/-- Each of the events is as `Q` wants it, given the events before it. -/
def EachAfter (Q : List Event → Event → Prop) (es : List Event) : Prop :=
  ∀ before e after, es = before ++ e :: after → Q before e

section EachAfter

variable {Q : List Event → Event → Prop} {e : Event} {es es' : List Event}

@[simp] theorem eachAfter_nil : EachAfter Q [] := by
  intro before e after h
  simp at h

@[simp] theorem eachAfter_cons_iff :
    EachAfter Q (e :: es) ↔ Q [] e ∧ EachAfter (fun before ↦ Q (e :: before)) es := by
  constructor
  · intro h
    exact ⟨h [] e es rfl, fun before e' after hs ↦ h (e :: before) e' after (by rw [hs]; rfl)⟩
  · rintro ⟨hfirst, hrest⟩ before e' after hs
    cases before with
    | nil =>
      obtain ⟨rfl, rfl⟩ := List.cons.inj hs
      exact hfirst
    | cons x before =>
      obtain ⟨rfl, hrest'⟩ := List.cons.inj hs
      exact hrest before e' after hrest'

theorem eachAfter_append_iff :
    EachAfter Q (es ++ es') ↔ EachAfter Q es ∧ EachAfter (fun before ↦ Q (es ++ before)) es' := by
  induction es generalizing Q with
  | nil => simp
  | cons e es ih => simp only [List.cons_append, eachAfter_cons_iff, ih, and_assoc]

end EachAfter

namespace EventUnit

/-! ## What is done together -/

/-- A look, and the lines of it that are asked for taken down, if there are any. -/
def taking (up m : EventMask) : List Event :=
  .look up :: if (up ∩ m).isEmpty then [] else [.takeDown (up ∩ m)]

/-- Asks which lines wake the hart, and adds these if they do not. -/
def asking (m waking : EventMask) : List Event :=
  .read .eventUnit Register.irqMask.offset waking.bits ::
    if m ⊆ waking then [] else [.write .eventUnit Register.irqMaskOr.offset m.bits]

/-- What the hardware shows to one use of `suspend`. -/
structure Nap where
  /-- The lines that wake the hart. -/
  waking : EventMask
  /-- The reported lines that are up. -/
  first : EventMask
  /-- Those that are up after the sleep, if there is one. -/
  second : EventMask

namespace Nap

/-- What a nap for these lines takes. -/
def seen (x : Nap) (m : EventMask) : EventMask :=
  if (x.first ∩ m).isEmpty then x.second ∩ m else x.first ∩ m

/-- How often the hart sleeps in a nap for these lines. -/
def sleeps (x : Nap) (m : EventMask) : Nat := if (x.first ∩ m).isEmpty then 1 else 0

/-- What is done in a nap for these lines once they wake the hart: a look, and if that finds nothing
a sleep and another look. -/
def looks (x : Nap) (m : EventMask) : List Event :=
  taking x.first m ++ if (x.first ∩ m).isEmpty then .suspend :: taking x.second m else []

/-- All that is done in a nap for these lines. -/
def events (x : Nap) (m : EventMask) : List Event := asking m x.waking ++ x.looks m

variable {x : Nap} {m : EventMask}

/-- Where nothing is up at first, the hart sleeps. -/
theorem looks_of_down (h : (x.first ∩ m).isEmpty = true) :
    x.looks m = taking x.first m ++ .suspend :: taking x.second m := by
  rw [looks, if_pos h]

theorem seen_of_down (h : (x.first ∩ m).isEmpty = true) : x.seen m = x.second ∩ m := if_pos h

theorem sleeps_of_down (h : (x.first ∩ m).isEmpty = true) : x.sleeps m = 1 := if_pos h

/-- Where something is up at first, the hart does not sleep. -/
theorem looks_of_up (h : (x.first ∩ m).isEmpty = false) : x.looks m = taking x.first m := by
  rw [looks, if_neg (Bool.eq_false_iff.1 h), List.append_nil]

theorem seen_of_up (h : (x.first ∩ m).isEmpty = false) : x.seen m = x.first ∩ m :=
  if_neg (Bool.eq_false_iff.1 h)

theorem sleeps_of_up (h : (x.first ∩ m).isEmpty = false) : x.sleeps m = 0 :=
  if_neg (Bool.eq_false_iff.1 h)

end Nap

section Paths

variable {v : Verbosity} {n n' : Nat} {es : List Event} {m seen : EventMask} {mode : WaitMode}
  {budget : Budget}

/-! ## Records -/

/-- Records, and nothing else. -/
def Records (es : List Event) : Prop := ∀ e ∈ es, ∃ severity text, e = .report severity text

theorem records_nil : Records [] := fun _ he ↦ absurd he List.not_mem_nil

theorem Records.append {es es' : List Event} (h : Records es) (h' : Records es') :
    Records (es ++ es') :=
  List.forall_mem_append.2 ⟨h, h'⟩

theorem records_of_report {s : Severity} {text : Unit → String} {u : Unit}
    (h : (Driver.report s text).Does v n es u n') : Records es := by
  obtain ⟨rfl, -⟩ := Driver.does_report_iff.1 h
  split
  · exact List.forall_mem_singleton.2 ⟨s, text (), rfl⟩
  · exact records_nil

theorem records_of_reportRound {r : Round} {u : Unit} (h : (reportRound r).Does v n es u n') :
    Records es := by
  rw [reportRound] at h
  split at h
  · obtain ⟨rfl, -⟩ := Driver.does_pure_iff.1 h
    exact records_nil
  · exact records_of_report h

/-! ## Single accesses -/

theorem does_readLines_iff {r : Register} :
    (readLines r).Does v n es m n' ↔ es = [.read .eventUnit r.offset m.bits] ∧ n' = n := by
  rw [readLines, readRegister, Driver.does_bind_pure_iff]
  constructor
  · rintro ⟨value, rfl, h⟩
    exact Driver.does_read_iff.1 h
  · exact fun h ↦ ⟨m.bits, rfl, Driver.does_read_iff.2 h⟩

theorem does_observe_iff :
    (observe m).Does v n es seen n' ↔ ∃ up, es = [.look up] ∧ seen = up ∩ m ∧ n' = n := by
  rw [observe, pendingMasked, Driver.does_bind_pure_iff]
  constructor
  · rintro ⟨up, rfl, h⟩
    obtain ⟨rfl, rfl⟩ := does_readLines_iff.1 h
    exact ⟨up, rfl, rfl, rfl⟩
  · rintro ⟨up, rfl, rfl, rfl⟩
    exact ⟨up, rfl, does_readLines_iff.2 ⟨rfl, rfl⟩⟩

theorem does_clear_iff {u : Unit} :
    (clear m).Does v n es u n' ↔ es = [.takeDown m] ∧ n' = n :=
  Driver.does_write_iff

theorem does_enableIrq_iff {u : Unit} :
    (enableIrq m).Does v n es u n' ↔
      es = [.write .eventUnit Register.irqMaskOr.offset m.bits] ∧ n' = n :=
  Driver.does_write_iff

theorem does_take_iff :
    (take m).Does v n es seen n' ↔ ∃ up, es = taking up m ∧ seen = up ∩ m ∧ n' = n := by
  rw [take, Driver.does_bind_iff]
  constructor
  · rintro ⟨es₁, seen', n₁, es₂, rfl, hobserve, h⟩
    obtain ⟨up, rfl, rfl, rfl⟩ := does_observe_iff.1 hobserve
    refine ⟨up, ?_⟩
    rw [taking]
    split at h
    · next he =>
      obtain ⟨rfl, rfl, rfl⟩ := Driver.does_pure_iff.1 h
      rw [if_pos he]
      exact ⟨rfl, rfl, rfl⟩
    · next he =>
      obtain ⟨u, rfl, hclear⟩ := Driver.does_bind_pure_iff.1 h
      obtain ⟨rfl, rfl⟩ := does_clear_iff.1 hclear
      rw [if_neg he]
      exact ⟨rfl, rfl, rfl⟩
  · rintro ⟨up, rfl, rfl, rfl⟩
    refine ⟨[.look up], up ∩ m, n', if (up ∩ m).isEmpty then [] else [.takeDown (up ∩ m)], rfl,
      does_observe_iff.2 ⟨up, rfl, rfl, rfl⟩, ?_⟩
    by_cases he : (up ∩ m).isEmpty = true
    · rw [if_pos he, if_pos he]
      exact Driver.does_pure_iff.2 ⟨rfl, rfl, rfl⟩
    · rw [if_neg he, if_neg he]
      exact Driver.does_bind_pure_iff.2 ⟨(), rfl, does_clear_iff.2 ⟨rfl, rfl⟩⟩

/-! ## The two ways to block -/

/-- A turn finds nothing and lets time pass, or it takes what it finds. -/
theorem does_pollTurn {elapsed : UInt32} {turn : Driver.Turn UInt32 EventMask}
    (h : (pollTurn m budget elapsed).Does v n es turn n') :
    ∃ up records, Records records ∧
      ((up ∩ m).isEmpty = true ∧ es = .look up :: .spin pollQuantum :: records ∧
          (budget.isExhausted (addSaturating elapsed 1) = true ∧ turn = .stop ∅ ∨
            budget.isExhausted (addSaturating elapsed 1) = false ∧ records = [] ∧
              turn = .again (addSaturating elapsed 1)) ∨
        (up ∩ m).isEmpty = false ∧ es = .look up :: .takeDown (up ∩ m) :: records ∧
          turn = .stop (up ∩ m)) := by
  rw [pollTurn, Driver.does_bind_iff] at h
  obtain ⟨es₁, seen, n₁, es₂, rfl, htake, h⟩ := h
  obtain ⟨up, rfl, rfl, rfl⟩ := does_take_iff.1 htake
  refine ⟨up, ?_⟩
  rw [taking]
  split at h
  · next hnone =>
    rw [Driver.does_bind_iff] at h
    obtain ⟨es₃, u, n₂, es₄, rfl, hspin, h⟩ := h
    obtain ⟨rfl, -⟩ := Driver.does_spin_iff.1 hspin
    rw [if_pos hnone]
    dsimp only at h
    split at h
    · next hexhausted =>
      obtain ⟨u, rfl, hreport⟩ := Driver.does_bind_pure_iff.1 h
      exact ⟨es₄, records_of_report hreport, .inl ⟨hnone, rfl, .inl ⟨hexhausted, rfl⟩⟩⟩
    · next hleft =>
      obtain ⟨rfl, rfl, -⟩ := Driver.does_pure_iff.1 h
      exact ⟨[], records_nil,
        .inl ⟨hnone, rfl, .inr ⟨Bool.eq_false_iff.2 hleft, rfl, rfl⟩⟩⟩
  · next hsome =>
    obtain ⟨u, rfl, hreport⟩ := Driver.does_bind_pure_iff.1 h
    rw [if_neg hsome]
    exact ⟨es₂, records_of_report hreport, .inr ⟨Bool.eq_false_iff.2 hsome, rfl, rfl⟩⟩

/-- A sleep, and a look that may take something. -/
theorem does_sleepOnce (h : (sleepOnce m).Does v n es seen n') :
    ∃ second records, es = .suspend :: (taking second m ++ records) ∧ seen = second ∩ m ∧
      n = n' + 1 ∧ Records records := by
  rw [sleepOnce, Driver.does_bind_iff] at h
  obtain ⟨es₁, u, n₁, es₂, rfl, hsleep, h⟩ := h
  obtain ⟨rfl, rfl⟩ := Driver.does_suspend_iff.1 hsleep
  rw [Driver.does_bind_iff] at h
  obtain ⟨es₃, seen₁, n₂, es₄, rfl, htake, h⟩ := h
  obtain ⟨second, rfl, rfl, rfl⟩ := does_take_iff.1 htake
  obtain ⟨u', rfl, hreport⟩ := Driver.does_bind_pure_iff.1 h
  obtain ⟨-, rfl⟩ := Driver.does_report_iff.1 hreport
  exact ⟨second, es₄, rfl, rfl, rfl, records_of_report hreport⟩

theorem does_sleepFor (waking : EventMask) (h : (sleepFor m).Does v n es seen n') :
    ∃ (x : Nap) (records : List Event), x.waking = waking ∧ es = x.looks m ++ records ∧
      seen = x.seen m ∧ n = n' + x.sleeps m ∧ Records records := by
  rw [sleepFor, Driver.does_bind_iff] at h
  obtain ⟨es₁, seen₁, n₁, es₂, rfl, htake, h⟩ := h
  obtain ⟨first, rfl, rfl, rfl⟩ := does_take_iff.1 htake
  split at h
  · next hnone =>
    obtain ⟨second, records, rfl, rfl, rfl, hrecords⟩ := does_sleepOnce h
    refine ⟨⟨waking, first, second⟩, records, rfl, ?_, ?_, ?_, hrecords⟩
    · rw [Nap.looks_of_down hnone, List.append_assoc]
      rfl
    · rw [Nap.seen_of_down hnone]
    · rw [Nap.sleeps_of_down hnone]
  · next hsome =>
    obtain ⟨rfl, rfl, rfl⟩ := Driver.does_pure_iff.1 h
    have hup : (first ∩ m).isEmpty = false := Bool.eq_false_iff.2 hsome
    refine ⟨⟨waking, first, ∅⟩, [], rfl, ?_, ?_, ?_, records_nil⟩
    · rw [Nap.looks_of_up hup]
    · rw [Nap.seen_of_up hup]
    · rw [Nap.sleeps_of_up hup, Nat.add_zero]

/-- **What `suspend` does is a nap.** -/
theorem does_suspend (h : (suspend m).Does v n es seen n') : ∃ (x : Nap) (records : List Event),
    es = x.events m ++ records ∧ seen = x.seen m ∧ n = n' + x.sleeps m ∧ Records records := by
  rw [suspend, Driver.does_bind_iff] at h
  obtain ⟨es₁, waking, n₁, es₂, rfl, hwaking, h⟩ := h
  obtain ⟨rfl, rfl⟩ := does_readLines_iff.1 hwaking
  dsimp only at h
  split at h
  · next hasks =>
    rw [Driver.does_bind_iff] at h
    obtain ⟨es₃, u, n₂, es₄, rfl, hwake, h⟩ := h
    obtain ⟨rfl, rfl⟩ := does_enableIrq_iff.1 hwake
    obtain ⟨x, records, rfl, rfl, hseen, hn, hrecords⟩ := does_sleepFor waking h
    refine ⟨x, records, ?_, hseen, hn, hrecords⟩
    rw [Nap.events, asking, if_neg hasks]
    simp
  · next hwakes =>
    obtain ⟨x, records, rfl, rfl, hseen, hn, hrecords⟩ := does_sleepFor waking h
    refine ⟨x, records, ?_, hseen, hn, hrecords⟩
    rw [Nap.events, asking, if_pos (Classical.not_not.1 hwakes)]
    simp

/-- A turn blocks once, and what it saw decides whether that ends the wait. -/
theorem does_waitAnyTurn {turn : Driver.Turn Unit (Except WaitError EventMask)}
    (h : (waitAnyTurn m mode budget).Does v n es turn n') :
    ∃ es' seen records, (wait m mode budget).Does v n es' seen n' ∧ es = es' ++ records ∧
      Records records ∧
      (seen.isEmpty = false ∧ turn = .stop (.ok seen) ∨
        seen.isEmpty = true ∧ (mode = .polling ∧ turn = .stop (.error .timeout) ∨
          mode = .suspend ∧ records = [] ∧ turn = .again ())) := by
  unfold waitAnyTurn at h
  rw [Driver.does_bind_iff] at h
  obtain ⟨es', seen, n₁, records, rfl, hwait, h⟩ := h
  split at h
  · next hnone =>
    cases mode with
    | polling =>
      obtain ⟨u, rfl, hreport⟩ := Driver.does_bind_pure_iff.1 h
      obtain ⟨-, rfl⟩ := Driver.does_report_iff.1 hreport
      exact ⟨es', seen, records, hwait, rfl, records_of_report hreport,
        .inr ⟨hnone, .inl ⟨rfl, rfl⟩⟩⟩
    | suspend =>
      obtain ⟨rfl, rfl, rfl⟩ := Driver.does_pure_iff.1 h
      exact ⟨es', seen, [], hwait, rfl, records_nil, .inr ⟨hnone, .inr ⟨rfl, rfl, rfl⟩⟩⟩
  · next hsome =>
    obtain ⟨rfl, rfl, rfl⟩ := Driver.does_pure_iff.1 h
    exact ⟨es', seen, [], hwait, rfl, records_nil, .inl ⟨Bool.eq_false_iff.2 hsome, rfl⟩⟩

/-! ## Rounds of a wait for all devices -/

section Rounds

variable {required : EventMask} {plan : WaitPlan}

/-- A round that sleeps is over at once if nothing is missing, and otherwise adds what it saw. -/
theorem does_suspendRound {t : Tally} {turn : Driver.Turn Tally Tally}
    (h : (suspendRound required t).Does v n es turn n') :
    required ⊆ t.total ∧ es = [] ∧ turn = .stop t ∨
      ¬ required ⊆ t.total ∧ ∃ es' seen n₁ records,
        (suspend (t.missing required)).Does v n es' seen n₁ ∧ es = es' ++ records ∧
        Records records ∧ turn = .again (t.add ⟨t.missing required, none, seen⟩) := by
  rw [suspendRound] at h
  split at h
  · next hall =>
    obtain ⟨rfl, rfl, -⟩ := Driver.does_pure_iff.1 h
    exact .inl ⟨hall, rfl, rfl⟩
  · next hmissing =>
    rw [Driver.does_bind_iff] at h
    obtain ⟨es', seen, n₁, records, rfl, hsuspend, h⟩ := h
    obtain ⟨u, rfl, hreport⟩ := Driver.does_bind_pure_iff.1 h
    exact .inr ⟨hmissing, es', seen, n₁, records, hsuspend, rfl, records_of_reportRound hreport,
      rfl⟩

/-- How a wait goes on after a round. -/
def Charged.verdict (c : Charged) (required : EventMask) (plan : WaitPlan) (r : Round) :
    Driver.Turn Charged (Except WaitError Unit × Tally) :=
  if required ⊆ (c.tally.add r).total then .stop (.ok (), c.tally.add r)
  else if plan.budget.isExhausted (addSaturating c.elapsed plan.slice.rounds) then
    .stop (.error .timeout, c.tally.add r)
  else .again ⟨c.tally.add r, addSaturating c.elapsed plan.slice.rounds⟩

theorem Charged.verdict_cases (c : Charged) (required : EventMask) (plan : WaitPlan) (r : Round) :
    required ⊆ (c.tally.add r).total ∧
        c.verdict required plan r = .stop (.ok (), c.tally.add r) ∨
      ¬ required ⊆ (c.tally.add r).total ∧
        (plan.budget.isExhausted (addSaturating c.elapsed plan.slice.rounds) = true ∧
            c.verdict required plan r = .stop (.error .timeout, c.tally.add r) ∨
          plan.budget.isExhausted (addSaturating c.elapsed plan.slice.rounds) = false ∧
            c.verdict required plan r =
              .again ⟨c.tally.add r, addSaturating c.elapsed plan.slice.rounds⟩) := by
  rw [verdict]
  split
  · next hall => exact .inl ⟨hall, rfl⟩
  · next hmissing =>
    refine .inr ⟨hmissing, ?_⟩
    split
    · next hexhausted => exact .inl ⟨hexhausted, rfl⟩
    · next hleft => exact .inr ⟨Bool.eq_false_iff.2 hleft, rfl⟩

theorem Charged.verdict_stop {c : Charged} {r : Round} {a : Except WaitError Unit × Tally}
    (h : c.verdict required plan r = .stop a) : a.2 = c.tally.add r := by
  obtain ⟨-, hturn⟩ | ⟨-, ⟨-, hturn⟩ | ⟨-, hturn⟩⟩ := c.verdict_cases required plan r
  · exact (congrArg Prod.snd (Driver.Turn.stop.inj (hturn.symm.trans h))).symm
  · exact (congrArg Prod.snd (Driver.Turn.stop.inj (hturn.symm.trans h))).symm
  · simp [hturn] at h

theorem Charged.verdict_again {c c' : Charged} {r : Round}
    (h : c.verdict required plan r = .again c') :
    plan.budget.isExhausted (addSaturating c.elapsed plan.slice.rounds) = false ∧
      c' = ⟨c.tally.add r, addSaturating c.elapsed plan.slice.rounds⟩ := by
  obtain ⟨-, hturn⟩ | ⟨-, ⟨-, hturn⟩ | ⟨hleft, hturn⟩⟩ := c.verdict_cases required plan r
  · simp [hturn] at h
  · simp [hturn] at h
  · exact ⟨hleft, (Driver.Turn.again.inj (hturn.symm.trans h)).symm⟩

/-- **A round is a poll, and what it saw decides how the wait goes on.** -/
theorem does_pollRound {c : Charged}
    {turn : Driver.Turn Charged (Except WaitError Unit × Tally)}
    (h : (pollRound required plan c).Does v n es turn n') :
    ∃ limit seen n₁ polled records,
      plan.budget.round? plan.slice c.elapsed = some limit ∧
      (poll (c.tally.missing required) limit).Does v n polled seen n₁ ∧
      es = polled ++ records ∧ Records records ∧
      turn = c.verdict required plan ⟨c.tally.missing required, some limit, seen⟩ := by
  rw [pollRound] at h
  dsimp only at h
  split at h
  · exact absurd h Driver.not_does_fault
  · next limit hlimit =>
    rw [Driver.does_bind_iff] at h
    obtain ⟨es₁, seen, n₁, es₂, rfl, hpoll, h⟩ := h
    rw [Driver.does_bind_iff] at h
    obtain ⟨es₃, u, n₂, es₄, rfl, hreport, h⟩ := h
    have hrecords := records_of_reportRound hreport
    refine ⟨limit, seen, n₁, es₁, es₃ ++ es₄, hlimit, hpoll, rfl, ?_⟩
    rw [Charged.verdict]
    split at h
    · next hall =>
      obtain ⟨rfl, rfl, -⟩ := Driver.does_pure_iff.1 h
      rw [if_pos hall]
      exact ⟨hrecords.append records_nil, rfl⟩
    · next hmissing =>
      rw [if_neg hmissing]
      split at h
      · next hexhausted =>
        obtain ⟨u', rfl, hwarn⟩ := Driver.does_bind_pure_iff.1 h
        rw [if_pos hexhausted]
        exact ⟨hrecords.append (records_of_report hwarn), rfl⟩
      · next hleft =>
        obtain ⟨rfl, rfl, -⟩ := Driver.does_pure_iff.1 h
        rw [if_neg hleft]
        exact ⟨hrecords.append records_nil, rfl⟩

end Rounds
end Paths

/-! ## Waits for all devices -/

section WaitAll

variable {plan : WaitPlan}

theorem waitAllRounds_empty (hrequired : plan.required.isEmpty = true) :
    waitAllRounds plan = pure (.error .emptyMask, []) :=
  if_pos hrequired

/-- Asleep, a wait is its rounds, and everything taken down once more. -/
theorem waitAllRounds_asleep (hmode : plan.mode = .suspend)
    (hrequired : plan.required.isEmpty = false) :
    waitAllRounds plan = suspendRounds plan.required >>= fun t ↦ clear t.total >>= fun _ ↦
      Driver.report .debug (fun _ ↦ s!"wait_all: {t.total.describe} complete") >>= fun _ ↦
        pure (.ok t.total, t.rounds.reverse) := by
  rw [waitAllRounds]
  dsimp only
  rw [if_neg (Bool.eq_false_iff.1 hrequired), hmode]
  simp only [pure_bind]

/-- Polling, it is its rounds, and a record if they end well. -/
theorem waitAllRounds_polling (hmode : plan.mode = .polling)
    (hrequired : plan.required.isEmpty = false) :
    waitAllRounds plan = pollRounds plan.required plan >>= fun a ↦
      match a.1 with
      | .ok () => Driver.report .debug (fun _ ↦ s!"wait_all: {a.2.total.describe} complete") >>=
          fun _ ↦ pure (.ok a.2.total, a.2.rounds.reverse)
      | .error e => pure (.error e, a.2.rounds.reverse) := by
  obtain ⟨devices, mode, budget, slice⟩ := plan
  obtain rfl : mode = .polling := hmode
  exact if_neg (Bool.eq_false_iff.1 hrequired)

theorem waitAll_eq_empty (hrequired : plan.required.isEmpty = true) :
    waitAll plan = pure (.error .emptyMask) := by
  rw [waitAll, waitAllRounds_empty hrequired, pure_bind]

theorem waitAll_eq_asleep (hmode : plan.mode = .suspend)
    (hrequired : plan.required.isEmpty = false) :
    waitAll plan = suspendRounds plan.required >>= fun t ↦ clear t.total >>= fun _ ↦
      Driver.report .debug (fun _ ↦ s!"wait_all: {t.total.describe} complete") >>= fun _ ↦
        pure (.ok t.total) := by
  rw [waitAll, waitAllRounds_asleep hmode hrequired]
  simp only [bind_assoc, pure_bind]

theorem waitAll_eq_polling (hmode : plan.mode = .polling)
    (hrequired : plan.required.isEmpty = false) :
    waitAll plan = pollRounds plan.required plan >>= fun a ↦
      match a.1 with
      | .ok () => Driver.report .debug (fun _ ↦ s!"wait_all: {a.2.total.describe} complete") >>=
          fun _ ↦ pure (.ok a.2.total)
      | .error e => pure (.error e) := by
  rw [waitAll, waitAllRounds_polling hmode hrequired, bind_assoc]
  refine bind_congr fun a ↦ ?_
  obtain ⟨outcome, t⟩ := a
  cases outcome with
  | ok u => simp only [bind_assoc, pure_bind]
  | error e => simp only [pure_bind]

/-- **A wait for all devices does nothing at all, or it is its rounds with an end**: a wait that
sleeps takes down everything once more. -/
theorem does_waitAllRounds {v : Verbosity} {n n' : Nat} {es : List Event}
    {answer : Except WaitError EventMask} {rounds : List Round}
    (h : (waitAllRounds plan).Does v n es (answer, rounds) n') :
    plan.required.isEmpty = true ∧ es = [] ∧ answer = .error .emptyMask ∨
      ∃ es' outcome t n₁ records, answer = outcome.map (fun _ ↦ t.total) ∧
        rounds = t.rounds.reverse ∧ Records records ∧
        (plan.mode = .suspend ∧ (suspendRounds plan.required).Does v n es' t n₁ ∧
            outcome = .ok () ∧ es = es' ++ .takeDown t.total :: records ∨
          plan.mode = .polling ∧
            (pollRounds plan.required plan).Does v n es' (outcome, t) n₁ ∧
            es = es' ++ records) := by
  cases hrequired : plan.required.isEmpty with
  | true =>
    rw [waitAllRounds_empty hrequired] at h
    obtain ⟨rfl, hpair, -⟩ := Driver.does_pure_iff.1 h
    exact .inl ⟨rfl, rfl, (Prod.mk.inj hpair).1⟩
  | false =>
    right
    cases hmode : plan.mode with
    | suspend =>
      rw [waitAllRounds_asleep hmode hrequired, Driver.does_bind_iff] at h
      obtain ⟨es₁, t, n₁, es₂, rfl, hrounds, h⟩ := h
      rw [Driver.does_bind_iff] at h
      obtain ⟨es₃, u, n₂, records, rfl, hclear, hend⟩ := h
      obtain ⟨rfl, rfl⟩ := does_clear_iff.1 hclear
      obtain ⟨u', hpair, hreport⟩ := Driver.does_bind_pure_iff.1 hend
      obtain ⟨rfl, rfl⟩ := Prod.mk.inj hpair
      exact ⟨es₁, .ok (), t, n₂, records, rfl, rfl, records_of_report hreport,
        .inl ⟨rfl, hrounds, rfl, rfl⟩⟩
    | polling =>
      rw [waitAllRounds_polling hmode hrequired, Driver.does_bind_iff] at h
      obtain ⟨es₁, ⟨outcome, t⟩, n₁, records, rfl, hrounds, hend⟩ := h
      cases outcome with
      | ok u =>
        obtain ⟨u', hpair, hreport⟩ := Driver.does_bind_pure_iff.1 hend
        obtain ⟨rfl, rfl⟩ := Prod.mk.inj hpair
        exact ⟨es₁, .ok u, t, n₁, records, rfl, rfl, records_of_report hreport,
          .inr ⟨rfl, hrounds, rfl⟩⟩
      | error e =>
        obtain ⟨rfl, hpair, -⟩ := Driver.does_pure_iff.1 hend
        obtain ⟨rfl, rfl⟩ := Prod.mk.inj hpair
        exact ⟨es₁, .error e, t, n₁, [], rfl, rfl, records_nil, .inr ⟨rfl, hrounds, rfl⟩⟩

end WaitAll

end EventUnit
end TileEvents
