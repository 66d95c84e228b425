import TileEvents.Platform.Trace
import TileEvents.Proofs.Operations

/-!
# Polling, look by look

A poll is a number of looks that find nothing, each with a delay after it, and then either a look
that finds something or the end of its budget (`does_poll`), whatever the hardware replies.

So the looks and delays can be counted.  A poll that returns with nothing has taken all of its
budget, and one that returns with something has taken less (`count_poll`).
-/

set_option autoImplicit false

namespace TileEvents

namespace Event

@[simp] theorem isRead_look (up : EventMask) : (look up).isRead = true := rfl

@[simp] theorem isSpin_look (up : EventMask) : (look up).isSpin = false := rfl

@[simp] theorem isRead_takeDown (m : EventMask) : (takeDown m).isRead = false := rfl

@[simp] theorem isSpin_takeDown (m : EventMask) : (takeDown m).isSpin = false := rfl

@[simp] theorem isRead_spin (cycles : UInt32) : (spin cycles).isRead = false := rfl

@[simp] theorem isSpin_spin (cycles : UInt32) : (spin cycles).isSpin = true := rfl

end Event

namespace EventUnit

/-- How many looks there are. -/
def looks (es : List Event) : Nat := es.countP Event.isRead

/-- How many delays there are. -/
def delays (es : List Event) : Nat := es.countP Event.isSpin

@[simp] theorem looks_nil : looks [] = 0 := rfl

@[simp] theorem delays_nil : delays [] = 0 := rfl

@[simp] theorem looks_cons (e : Event) (es : List Event) :
    looks (e :: es) = looks es + if e.isRead then 1 else 0 :=
  List.countP_cons

@[simp] theorem delays_cons (e : Event) (es : List Event) :
    delays (e :: es) = delays es + if e.isSpin then 1 else 0 :=
  List.countP_cons

@[simp] theorem looks_append (es es' : List Event) : looks (es ++ es') = looks es + looks es' :=
  List.countP_append

@[simp] theorem delays_append (es es' : List Event) :
    delays (es ++ es') = delays es + delays es' :=
  List.countP_append

theorem Records.looks_eq {es : List Event} (h : Records es) : looks es = 0 := by
  rw [looks, List.countP_eq_zero]
  intro e he
  obtain ⟨s, text, rfl⟩ := h e he
  simp [Event.isRead]

theorem Records.delays_eq {es : List Event} (h : Records es) : delays es = 0 := by
  rw [delays, List.countP_eq_zero]
  intro e he
  obtain ⟨s, text, rfl⟩ := h e he
  simp [Event.isSpin]

/-! ## One poll -/

/-- Looks that find nothing, each with a delay after it. -/
def idle (ups : List EventMask) : List Event :=
  ups.flatMap fun up ↦ [.look up, .spin pollQuantum]

@[simp] theorem idle_nil : idle [] = [] := rfl

@[simp] theorem idle_cons (up : EventMask) (ups : List EventMask) :
    idle (up :: ups) = .look up :: .spin pollQuantum :: idle ups := rfl

@[simp] theorem idle_append (ups ups' : List EventMask) :
    idle (ups ++ ups') = idle ups ++ idle ups' :=
  List.flatMap_append

@[simp] theorem looks_idle (ups : List EventMask) : looks (idle ups) = ups.length := by
  induction ups with
  | nil => rfl
  | cons up ups ih => simp [ih]

@[simp] theorem delays_idle (ups : List EventMask) : delays (idle ups) = ups.length := by
  induction ups with
  | nil => rfl
  | cons up ups ih => simp [ih]

section Paths

variable {v : Verbosity} {n n' : Nat} {es : List Event} {m seen : EventMask} {budget : Budget}

/-- What a poll does of which `elapsed` looks have found nothing yet: the looks `ups` find nothing,
and then it finds something while there is budget left, or the budget has run out. -/
inductive Polls (m : EventMask) (budget : Budget) (elapsed : Nat) (ups : List EventMask) :
    List Event → EventMask → Prop
  | found {up : EventMask} {records : List Event} (hrecords : Records records)
      (hsome : (up ∩ m).isEmpty = false)
      (hleft : budget.isUnbounded = false → elapsed + ups.length < budget.rounds.toNat) :
      Polls m budget elapsed ups (idle ups ++ .look up :: .takeDown (up ∩ m) :: records) (up ∩ m)
  | spent {records : List Event} (hrecords : Records records) (hlook : ups ≠ [])
      (hbudget : budget.isUnbounded = false)
      (hover : elapsed + ups.length = budget.rounds.toNat) :
      Polls m budget elapsed ups (idle ups ++ records) ∅

/-- One more look before that finds nothing.  Looks are counted as long as there is a budget. -/
theorem Polls.cons {elapsed elapsed' : Nat} {ups : List EventMask}
    (h : Polls m budget elapsed' ups es seen)
    (hcount : budget.isUnbounded = false → elapsed' = elapsed + 1) (up : EventMask) :
    Polls m budget elapsed (up :: ups) (.look up :: .spin pollQuantum :: es) seen := by
  cases h with
  | found hrecords hsome hleft =>
    refine .found hrecords hsome fun hbudget ↦ ?_
    have hlt := hleft hbudget
    rw [hcount hbudget] at hlt
    simp only [List.length_cons]
    omega
  | spent hrecords hlook hbudget hover =>
    refine .spent hrecords (List.cons_ne_nil up ups) hbudget ?_
    rw [hcount hbudget] at hover
    simp only [List.length_cons]
    omega

/-- The count of looks does not saturate while there is budget left. -/
theorem toNat_addSaturating_one {elapsed : UInt32} (hleft : elapsed.toNat < budget.rounds.toNat) :
    (addSaturating elapsed 1).toNat = elapsed.toNat + 1 := by
  have hmax := budget.rounds.toNat_lt
  rw [toNat_addSaturating, UInt32.toNat_one]
  omega

/-- After one more look in vain the budget is spent, or some of it is left. -/
theorem spent_or_left {elapsed : UInt32}
    (hleft : budget.isUnbounded = false → elapsed.toNat < budget.rounds.toNat) :
    budget.isExhausted (addSaturating elapsed 1) = true ∧ budget.isUnbounded = false ∧
        elapsed.toNat + 1 = budget.rounds.toNat ∨
      budget.isExhausted (addSaturating elapsed 1) = false ∧ (budget.isUnbounded = false →
        (addSaturating elapsed 1).toNat = elapsed.toNat + 1 ∧
          elapsed.toNat + 1 < budget.rounds.toNat) := by
  cases hspent : budget.isExhausted (addSaturating elapsed 1) with
  | true =>
    obtain ⟨hbudget, hover⟩ := Budget.isExhausted_iff.1 hspent
    have hbounded : budget.isUnbounded = false := by
      rwa [Bool.eq_false_iff, ne_eq, Budget.isUnbounded_iff]
    rw [toNat_addSaturating_one (hleft hbounded)] at hover
    exact .inl ⟨rfl, hbounded, Nat.le_antisymm (hleft hbounded) hover⟩
  | false =>
    refine .inr ⟨rfl, fun hbounded ↦ ?_⟩
    have hcount := toNat_addSaturating_one (hleft hbounded)
    rw [Bool.eq_false_iff, ne_eq, Budget.isExhausted_iff, hcount] at hspent
    rw [Bool.eq_false_iff, ne_eq, Budget.isUnbounded_iff] at hbounded
    exact ⟨hcount, by omega⟩

/-- **A poll, event by event.** -/
theorem does_poll (h : (poll m budget).Does v n es seen n') :
    ∃ ups, (∀ up ∈ ups, (up ∩ m).isEmpty = true) ∧ Polls m budget 0 ups es seen := by
  have key : (budget.isUnbounded = false → (0 : UInt32).toNat < budget.rounds.toNat) →
      ∃ ups, (∀ up ∈ ups, (up ∩ m).isEmpty = true) ∧
        Polls m budget (0 : UInt32).toNat ups es seen := by
    refine Driver.does_loop (R := fun elapsed es seen ↦
      (budget.isUnbounded = false → elapsed.toNat < budget.rounds.toNat) →
      ∃ ups, (∀ up ∈ ups, (up ∩ m).isEmpty = true) ∧
        Polls m budget elapsed.toNat ups es seen) ?_ ?_ h
    · intro elapsed n es seen n' h hleft
      obtain ⟨up, records, hrecords, ⟨hnone, rfl, hturn⟩ | ⟨hsome, rfl, hturn⟩⟩ := does_pollTurn h
      · obtain ⟨hexhausted, hturn⟩ | ⟨-, -, hturn⟩ := hturn
        · obtain rfl := Driver.Turn.stop.inj hturn
          obtain ⟨-, hbounded, hspent⟩ | ⟨hmore, -⟩ := spent_or_left hleft
          · exact ⟨[up], List.forall_mem_singleton.2 hnone,
              .spent hrecords (List.cons_ne_nil up []) hbounded hspent⟩
          · exact absurd hexhausted (Bool.eq_false_iff.1 hmore)
        · exact nomatch hturn
      · obtain rfl := Driver.Turn.stop.inj hturn
        refine ⟨[], fun up hup ↦ absurd hup List.not_mem_nil, .found hrecords hsome ?_⟩
        simpa using hleft
    · intro elapsed n es elapsed' n' es' seen h hrest hleft
      obtain ⟨up, records, -, ⟨hnone, rfl, hturn⟩ | ⟨-, -, hturn⟩⟩ := does_pollTurn h
      · obtain ⟨-, hturn⟩ | ⟨hmore, rfl, hturn⟩ := hturn
        · exact nomatch hturn
        · obtain rfl := Driver.Turn.again.inj hturn
          obtain ⟨hspent, -⟩ | ⟨-, hcount⟩ := spent_or_left hleft
          · exact absurd hspent (Bool.eq_false_iff.1 hmore)
          obtain ⟨ups, hups, hpolls⟩ := hrest fun hbounded ↦ by
            rw [(hcount hbounded).1]
            exact (hcount hbounded).2
          exact ⟨up :: ups, List.forall_mem_cons.2 ⟨hnone, hups⟩,
            hpolls.cons (fun hbounded ↦ (hcount hbounded).1) up⟩
      · exact nomatch hturn
  refine key fun hbounded ↦ ?_
  rw [Bool.eq_false_iff, ne_eq, Budget.isUnbounded_iff] at hbounded
  exact Nat.pos_of_ne_zero hbounded

/-- A poll with a budget: the looks it takes are no more than the budget, the delays are all of it
if it found nothing and less if it found something. -/
theorem count_poll (hbudget : budget.isUnbounded = false)
    (h : (poll m budget).Does v n es seen n') :
    looks es ≤ budget.rounds.toNat ∧ delays es ≤ budget.rounds.toNat ∧
      (seen.isEmpty = true → delays es = budget.rounds.toNat) := by
  obtain ⟨ups, -, hpolls⟩ := does_poll h
  cases hpolls with
  | found hrecords hsome hleft =>
    have := hleft hbudget
    simp only [looks_append, looks_cons, looks_idle, hrecords.looks_eq, delays_append,
      delays_cons, delays_idle, hrecords.delays_eq, hsome]
    simp
    omega
  | spent hrecords _ _ hover =>
    simp only [looks_append, looks_idle, hrecords.looks_eq, delays_append, delays_idle,
      hrecords.delays_eq]
    omega

/-- **The last look of a poll** sees what it answers with, and is followed by one delay at most. -/
theorem exists_last_look (h : (poll m budget).Does v n es seen n') :
    ∃ earlier up later, es = earlier ++ .look up :: later ∧ seen = up ∩ m ∧ delays later ≤ 1 := by
  obtain ⟨ups, hups, hpolls⟩ := does_poll h
  cases hpolls with
  | @found up records hrecords hsome hleft =>
    exact ⟨idle ups, up, _, rfl, rfl, by simp [hrecords.delays_eq]⟩
  | @spent records hrecords hlook _ _ =>
    obtain ⟨ups, up, rfl⟩ := (List.eq_nil_or_concat ups).resolve_left hlook
    rw [List.concat_eq_append] at hups ⊢
    refine ⟨idle ups, up, .spin pollQuantum :: records, ?_, ?_, ?_⟩
    · simp
    · exact (EventMask.isEmpty_iff.1 (hups up (by simp))).symm
    · simp [hrecords.delays_eq]

/-- **The last look of a wait for all devices** finds nothing up that the wait misses in the end. -/
theorem exists_last_look_pollRounds {required : EventMask} {plan : WaitPlan}
    {a : Except WaitError Unit × Tally} (h : (pollRounds required plan).Does v n es a n') :
    ∃ earlier up later, es = earlier ++ .look up :: later ∧ delays later ≤ 1 ∧
      ∀ b, b ∈ a.2.missing required → ¬ b ∈ up := by
  refine Driver.does_loop (R := fun _ es a ↦ ∃ earlier up later,
    es = earlier ++ .look up :: later ∧ delays later ≤ 1 ∧
      ∀ b, b ∈ a.2.missing required → ¬ b ∈ up) ?_ ?_ h
  · intro c n es a n' h
    obtain ⟨limit, seen, n₁, polled, records, -, hpoll, rfl, hrecords, hturn⟩ := does_pollRound h
    obtain ⟨earlier, up, later, rfl, rfl, hdelays⟩ := exists_last_look hpoll
    refine ⟨earlier, up, later ++ records, by simp, ?_, fun b hb hup ↦ ?_⟩
    · rwa [delays_append, hrecords.delays_eq]
    · rw [Charged.verdict_stop hturn.symm, Tally.missing_add] at hb
      obtain ⟨hmissing, hnot⟩ := EventMask.mem_sdiff.1 hb
      exact hnot (EventMask.mem_inter.2 ⟨hup, hmissing⟩)
  · rintro c n es c' n' es' a h ⟨earlier, up, later, rfl, hlast⟩
    exact ⟨es ++ earlier, up, later, by simp, hlast⟩

end Paths
end EventUnit
end TileEvents
