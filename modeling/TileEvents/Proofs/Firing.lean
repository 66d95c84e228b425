import TileEvents.Tile.Basic

/-!
# What fires

When the clock of a tile moves, everything that has come due fires, one entry of the schedule after
the other.  Each may find the tile changed by the ones before, and a transfer can only retire if
one is in flight.  For a tile that has enough transfers in flight for all that are due to retire
(`Tile.SolventBy`) the order is of no account: `fireDue_eq` gives the tile afterwards, in which the
due entries have fired and the others are left.  For any other tile there is none (`of_fireDue`).
-/

set_option autoImplicit false

namespace TileEvents

namespace Schedule

/-- The lines that go up when all of this has fired. -/
def lines (es : Schedule) : EventMask := .unions (es.map (·.stimulus.lines))

theorem mem_lines {es : Schedule} {b : Nat} : b ∈ es.lines ↔ ∃ e ∈ es, b ∈ e.stimulus.lines := by
  rw [lines, EventMask.mem_unions]
  simp only [List.mem_map]
  constructor
  · rintro ⟨m, ⟨e, he, rfl⟩, hb⟩
    exact ⟨e, he, hb⟩
  · rintro ⟨e, he, hb⟩
    exact ⟨_, ⟨e, he, rfl⟩, hb⟩

theorem lines_perm {es es' : Schedule} (h : es.Perm es') : es.lines = es'.lines := by
  refine EventMask.ext_mem fun b ↦ ?_
  rw [mem_lines, mem_lines]
  simp only [h.mem_iff]

@[simp] theorem lines_nil : lines [] = ∅ := rfl

@[simp] theorem lines_singleton (e : Entry) : lines [e] = e.stimulus.lines :=
  EventMask.empty_union _

theorem lines_append (es es' : Schedule) : lines (es ++ es') = es.lines ∪ es'.lines := by
  refine EventMask.ext_mem fun b ↦ ?_
  simp only [EventMask.mem_union, mem_lines, List.mem_append]
  constructor
  · rintro ⟨e, he | he, hb⟩
    · exact .inl ⟨e, he, hb⟩
    · exact .inr ⟨e, he, hb⟩
  · rintro (⟨e, he, hb⟩ | ⟨e, he, hb⟩)
    · exact ⟨e, .inl he, hb⟩
    · exact ⟨e, .inr he, hb⟩

/-- How many transfers of a channel retire when all of this has fired. -/
def retirements (es : Schedule) (c : Channel) : Nat :=
  es.countP fun e ↦ decide (e.stimulus = .retire c)

theorem retirements_perm {es es' : Schedule} (h : es.Perm es') (c : Channel) :
    es.retirements c = es'.retirements c :=
  h.countP_eq _

theorem retirements_append (es es' : Schedule) (c : Channel) :
    retirements (es ++ es') c = es.retirements c + es'.retirements c :=
  List.countP_append

theorem retirements_singleton (e : Entry) (c : Channel) :
    retirements [e] c = if e.stimulus = .retire c then 1 else 0 := by
  simp [retirements, List.countP_singleton]

/-- What is due by a time, and what is not. -/
def dueBy (es : Schedule) (now : Nat) : Schedule := es.filter fun e ↦ decide (e.due ≤ now)

def dueAfter (es : Schedule) (now : Nat) : Schedule := es.filter fun e ↦ decide (now < e.due)

theorem mem_dueBy {es : Schedule} {now : Nat} {e : Entry} :
    e ∈ es.dueBy now ↔ e ∈ es ∧ e.due ≤ now := by
  simp [dueBy, List.mem_filter]

theorem mem_dueAfter {es : Schedule} {now : Nat} {e : Entry} :
    e ∈ es.dueAfter now ↔ e ∈ es ∧ now < e.due := by
  simp [dueAfter, List.mem_filter]

/-- Nothing is due by a time exactly if everything is later. -/
theorem dueBy_eq_nil_iff {es : Schedule} {now : Nat} :
    es.dueBy now = [] ↔ ∀ e ∈ es, now < e.due := by
  rw [dueBy, List.filter_eq_nil_iff]
  simp only [decide_eq_true_eq, Nat.not_le]

theorem perm_due (es : Schedule) (now : Nat) : es.Perm (es.dueBy now ++ es.dueAfter now) := by
  have hnot : es.dueAfter now = es.filter fun e ↦ !decide (e.due ≤ now) := by
    refine List.filter_congr fun e _ ↦ ?_
    rw [← decide_not, decide_eq_decide, Nat.not_le]
  rw [hnot]
  exact (List.filter_append_perm _ es).symm

theorem dueBy_append (es es' : Schedule) (now : Nat) :
    dueBy (es ++ es') now = es.dueBy now ++ es'.dueBy now :=
  List.filter_append es es'

theorem dueAfter_append (es es' : Schedule) (now : Nat) :
    dueAfter (es ++ es') now = es.dueAfter now ++ es'.dueAfter now :=
  List.filter_append es es'

theorem retirements_dueBy_le (es : Schedule) (now : Nat) (c : Channel) :
    (es.dueBy now).retirements c ≤ es.retirements c :=
  List.filter_sublist.countP_le

/-- A time that lies between two parts of a schedule tells them apart. -/
theorem due_append {fired rest : Schedule} {now : Nat} (hfired : ∀ e ∈ fired, e.due ≤ now)
    (hrest : ∀ e ∈ rest, now < e.due) :
    dueBy (fired ++ rest) now = fired ∧ dueAfter (fired ++ rest) now = rest := by
  constructor
  · rw [dueBy_append, dueBy_eq_nil_iff.2 hrest, List.append_nil]
    exact List.filter_eq_self.2 fun e he ↦ by simpa using hfired e he
  · have hnone : fired.filter (fun e ↦ decide (now < e.due)) = [] :=
      List.filter_eq_nil_iff.2 fun e he ↦ by simpa using hfired e he
    rw [dueAfter, List.filter_append, hnone, List.nil_append]
    exact List.filter_eq_self.2 fun e he ↦ by simpa using hrest e he

/-- What is due does not stay. -/
theorem length_dueAfter_lt {es : Schedule} {e : Entry} {now : Nat} (he : e ∈ es)
    (hdue : e.due ≤ now) : (es.dueAfter now).length < es.length :=
  List.length_filter_lt_length_iff_exists.2 ⟨e, he, by simpa using hdue⟩

/-- An entry that is due, and the others. -/
theorem perm_due_cons {es others : Schedule} {e : Entry} {now : Nat} (h : es.Perm (e :: others))
    (hdue : e.due ≤ now) :
    (es.dueBy now).Perm (e :: others.dueBy now) ∧ (es.dueAfter now).Perm (others.dueAfter now) := by
  have hby := h.filter fun e ↦ decide (e.due ≤ now)
  have hafter := h.filter fun e ↦ decide (now < e.due)
  rw [List.filter_cons_of_pos (by simpa using hdue)] at hby
  rw [List.filter_cons_of_neg (by simpa using hdue)] at hafter
  exact ⟨hby, hafter⟩

/-- What it retires by then, and what the others do. -/
theorem retirements_dueBy_cons {es others : Schedule} {e : Entry} {now : Nat}
    (h : es.Perm (e :: others)) (hdue : e.due ≤ now) (c : Channel) :
    (es.dueBy now).retirements c = retirements [e] c + (others.dueBy now).retirements c :=
  (retirements_perm (perm_due_cons h hdue).1 c).trans (retirements_append [e] _ c)

/-- What is due by a later time is what was due by an earlier one and what has come due since. -/
theorem perm_due_of_le {es rest : Schedule} {now now' : Nat} (h : now ≤ now')
    (hrest : rest.Perm (es.dueAfter now)) :
    (es.dueBy now ++ rest.dueBy now').Perm (es.dueBy now') ∧
      (rest.dueAfter now').Perm (es.dueAfter now') := by
  have hall : es.Perm (es.dueBy now ++ rest) := (es.perm_due now).trans (hrest.symm.append_left _)
  have hold : ∀ e ∈ es.dueBy now, e.due ≤ now' :=
    fun e he ↦ Nat.le_trans (mem_dueBy.1 he).2 h
  have hkeep : (es.dueBy now).dueBy now' = es.dueBy now :=
    List.filter_eq_self.2 fun e he ↦ by simpa using hold e he
  have hnone : (es.dueBy now).dueAfter now' = [] :=
    List.filter_eq_nil_iff.2 fun e he ↦ by simpa using hold e he
  have hby : (es.dueBy now').Perm ((es.dueBy now ++ rest).dueBy now') := hall.filter _
  have hafter : (es.dueAfter now').Perm ((es.dueBy now ++ rest).dueAfter now') := hall.filter _
  rw [dueBy_append, hkeep] at hby
  rw [dueAfter_append, hnone, List.nil_append] at hafter
  exact ⟨hby.symm, hafter.symm⟩

theorem retirements_dueBy_of_le {es rest : Schedule} {now now' : Nat} (h : now ≤ now')
    (hrest : rest.Perm (es.dueAfter now)) (c : Channel) :
    (es.dueBy now').retirements c =
      (es.dueBy now).retirements c + (rest.dueBy now').retirements c := by
  rw [← retirements_perm (perm_due_of_le h hrest).1, retirements_append]

theorem nextEdge?_eq_some_iff {es : Schedule} {m : EventMask} {due : Nat} :
    es.nextEdge? m = some due ↔
      (∃ e ∈ es, e.stimulus.lines.intersects m = true ∧ e.due = due) ∧
        ∀ e ∈ es, e.stimulus.lines.intersects m = true → due ≤ e.due := by
  rw [nextEdge?, earliest?_eq_some_iff]
  simp only [List.mem_filter, and_assoc, and_imp]

/-- There is a next edge if anything is to raise one of the lines. -/
theorem exists_nextEdge? {es : Schedule} {m : EventMask} {e : Entry} (he : e ∈ es)
    (h : e.stimulus.lines.intersects m = true) : ∃ due, es.nextEdge? m = some due := by
  cases hnext : es.nextEdge? m with
  | some due => exact ⟨due, rfl⟩
  | none =>
    rw [nextEdge?, earliest?_eq_none_iff, List.filter_eq_nil_iff] at hnext
    exact absurd h (hnext e he)

/-- What does not raise one of the lines is of no account. -/
theorem nextEdge?_congr {es es' : Schedule} {m : EventMask}
    (h : ∀ e, e.stimulus.lines.intersects m = true → (e ∈ es ↔ e ∈ es')) :
    es.nextEdge? m = es'.nextEdge? m := by
  have hsame : ∀ e, e ∈ es ∧ e.stimulus.lines.intersects m = true ↔
      e ∈ es' ∧ e.stimulus.lines.intersects m = true := fun e ↦ and_congr_left (h e)
  refine Option.ext fun due ↦ ?_
  rw [nextEdge?_eq_some_iff, nextEdge?_eq_some_iff]
  simp only [← and_assoc, ← and_imp, hsame]

/-- What has fired is of no account either if it raises none of the lines. -/
theorem nextEdge?_of_later {es rest : Schedule} {m : EventMask} {now : Nat}
    (hrest : rest.Perm (es.dueAfter now))
    (hlater : ∀ e ∈ es, e.stimulus.lines.intersects m = true → now < e.due) :
    rest.nextEdge? m = es.nextEdge? m := by
  refine nextEdge?_congr fun e hlines ↦ ?_
  rw [hrest.mem_iff, mem_dueAfter]
  exact and_iff_left_of_imp fun he ↦ hlater e he hlines

end Schedule

namespace Tile

/-- The transfers after some entries have fired. -/
def retired (t : Tile) (fired : Schedule) (c : Channel) : Transfers :=
  { t.transfers c with done := (t.transfers c).done + fired.retirements c }

/-- The tile after some entries have fired, with the others left. -/
def afterFiring (t : Tile) (fired rest : Schedule) : Tile :=
  { t with buffer := t.buffer ∪ fired.lines, schedule := rest, transfers := t.retired fired }

/-- No channel is to retire more transfers than it has in flight. -/
def Solvent (t : Tile) : Prop :=
  ∀ c, t.schedule.retirements c ≤ (t.transfers c).issued - (t.transfers c).done

/-- No channel is to retire more transfers by a time than it has in flight. -/
def SolventBy (t : Tile) (now : Nat) : Prop :=
  ∀ c, (t.schedule.dueBy now).retirements c ≤ (t.transfers c).issued - (t.transfers c).done

theorem Solvent.by {t : Tile} (h : t.Solvent) (now : Nat) : t.SolventBy now :=
  fun c ↦ Nat.le_trans (t.schedule.retirements_dueBy_le now c) (h c)

theorem afterFiring_nil (t : Tile) : t.afterFiring [] t.schedule = t := by
  rw [afterFiring, Schedule.lines_nil, EventMask.union_empty]
  rfl

theorem afterFiring_append (t : Tile) (fired fired' rest rest' : Schedule) :
    (t.afterFiring fired rest).afterFiring fired' rest' =
      t.afterFiring (fired ++ fired') rest' := by
  have hretired : (t.afterFiring fired rest).retired fired' = t.retired (fired ++ fired') := by
    funext c
    simp only [retired, afterFiring, Schedule.retirements_append, Nat.add_assoc]
  have hlines : t.buffer ∪ fired.lines ∪ fired'.lines = t.buffer ∪ (fired ++ fired').lines := by
    rw [Schedule.lines_append, EventMask.union_assoc]
  show { t with
    buffer := t.buffer ∪ fired.lines ∪ fired'.lines
    schedule := rest'
    transfers := (t.afterFiring fired rest).retired fired' } = _
  rw [hretired, hlines]
  rfl

/-- The order in which entries fire is of no account. -/
theorem afterFiring_perm (t : Tile) {fired fired' : Schedule} (rest : Schedule)
    (h : fired.Perm fired') : t.afterFiring fired rest = t.afterFiring fired' rest := by
  have hretired : t.retired fired = t.retired fired' := by
    funext c
    simp only [retired, Schedule.retirements_perm h]
  rw [afterFiring, hretired, Schedule.lines_perm h]
  rfl

/-- An entry fires. -/
theorem apply_eq {t : Tile} {e : Entry} (rest : Schedule)
    (h : ∀ c, e.stimulus = .retire c → (t.transfers c).inFlight = true) :
    { t with schedule := rest }.apply e.stimulus = .ok (t.afterFiring [e] rest) := by
  cases hs : e.stimulus with
  | edge m =>
    have hretired : t.retired [e] = t.transfers := by
      funext c
      simp [retired, Schedule.retirements, hs]
    rw [afterFiring, hretired, Schedule.lines_singleton, hs]
    rfl
  | retire c =>
    have hretired : t.retired [e] = fun c' ↦
        if c' = c then { t.transfers c with done := (t.transfers c).done + 1 }
        else t.transfers c' := by
      funext c'
      by_cases hc : c' = c
      · simp [retired, Schedule.retirements, hs, hc]
      · simp [retired, Schedule.retirements, hs, hc, Ne.symm hc]
    rw [apply, if_pos (h c hs), afterFiring, hretired, Schedule.lines_singleton, hs]
    rfl

/-- What is left can retire as well. -/
theorem Solvent.afterFiring {t : Tile} (h : t.Solvent) {fired rest : Schedule}
    (hperm : t.schedule.Perm (fired ++ rest)) : (t.afterFiring fired rest).Solvent := by
  intro c
  have hc := h c
  rw [Schedule.retirements_perm hperm, Schedule.retirements_append] at hc
  show rest.retirements c ≤ (t.transfers c).issued - ((t.transfers c).done + fired.retirements c)
  omega

/-- Nothing fires unless something is due. -/
theorem afterFiring_of_not_due {t : Tile} (h : ∀ e ∈ t.schedule, t.now < e.due) :
    t.schedule.Perm (t.schedule.dueAfter t.now) ∧
      t = t.afterFiring (t.schedule.dueBy t.now) t.schedule := by
  have hdue : t.schedule.dueBy t.now = [] := Schedule.dueBy_eq_nil_iff.2 h
  have hperm := t.schedule.perm_due t.now
  rw [hdue] at hperm ⊢
  exact ⟨hperm, (afterFiring_nil t).symm⟩

/-- The first entry that fires must find a transfer in flight, and so must the others after it. -/
theorem solventBy_iff_of_perm {t : Tile} {e : Entry} {others : Schedule}
    (hperm : t.schedule.Perm (e :: others)) (hdue : e.due ≤ t.now) :
    t.SolventBy t.now ↔
      (∀ c, e.stimulus = .retire c → (t.transfers c).inFlight = true) ∧
        (t.afterFiring [e] others).SolventBy t.now := by
  have hcount := Schedule.retirements_dueBy_cons hperm hdue
  have hone := Schedule.retirements_singleton e
  simp only [SolventBy, afterFiring, retired, hcount, hone, Transfers.inFlight, decide_eq_true_eq]
  constructor
  · intro h
    refine ⟨fun c hc ↦ ?_, fun c ↦ ?_⟩
    · have := h c
      rw [if_pos hc] at this
      omega
    · have := h c
      omega
  · rintro ⟨hflight, hrest⟩ c
    have := hrest c
    by_cases hc : e.stimulus = .retire c
    · have := hflight c hc
      simp only [if_pos hc] at *
      omega
    · simp only [if_neg hc] at *
      omega

theorem fireUpTo_eq {k : Nat} {t : Tile} (h : t.SolventBy t.now)
    (hk : (t.schedule.dueBy t.now).length ≤ k) :
    ∃ rest, rest.Perm (t.schedule.dueAfter t.now) ∧
      fireUpTo k t = .ok (t.afterFiring (t.schedule.dueBy t.now) rest) := by
  induction k generalizing t with
  | zero =>
    have hnone : t.schedule.dueBy t.now = [] := List.length_eq_zero_iff.1 (Nat.le_zero.1 hk)
    obtain ⟨hperm, heq⟩ := afterFiring_of_not_due (Schedule.dueBy_eq_nil_iff.1 hnone)
    exact ⟨t.schedule, hperm, congrArg Except.ok heq⟩
  | succ k ih =>
    rw [fireUpTo]
    cases htake : t.schedule.takeDue? t.now with
    | none =>
      obtain ⟨hperm, heq⟩ := afterFiring_of_not_due (Schedule.takeDue?_eq_none_iff.1 htake)
      exact ⟨t.schedule, hperm, congrArg Except.ok heq⟩
    | some r =>
      obtain ⟨e, others⟩ := r
      obtain ⟨hdue, -, hperm⟩ := Schedule.of_takeDue? htake
      obtain ⟨hdueBy, hdueAfter⟩ := Schedule.perm_due_cons hperm hdue
      obtain ⟨hflight, hsolvent⟩ := (solventBy_iff_of_perm hperm hdue).1 h
      have hlength : (others.dueBy t.now).length ≤ k := by
        have key := hdueBy.length_eq
        rw [List.length_cons] at key
        omega
      obtain ⟨rest, hrest, hfire⟩ := ih (t := t.afterFiring [e] others) hsolvent hlength
      refine ⟨rest, hrest.trans hdueAfter.symm, ?_⟩
      show (apply _ e.stimulus).bind (fireUpTo k) = _
      rw [apply_eq others hflight]
      show fireUpTo k (t.afterFiring [e] others) = _
      rw [hfire, afterFiring_append, afterFiring_perm t rest hdueBy]
      rfl

/-- What has fired has found its transfers in flight. -/
theorem inFlight_of_apply {t t' : Tile} {s : Stimulus} (h : t.apply s = .ok t') (c : Channel)
    (hs : s = .retire c) : (t.transfers c).inFlight = true := by
  subst hs
  rw [apply] at h
  split at h
  · assumption
  · exact nomatch h

theorem solventBy_of_fireUpTo {k : Nat} {t t' : Tile} (h : fireUpTo k t = .ok t')
    (hk : (t.schedule.dueBy t.now).length ≤ k) : t.SolventBy t.now := by
  induction k generalizing t with
  | zero =>
    intro c
    rw [List.length_eq_zero_iff.1 (Nat.le_zero.1 hk)]
    exact Nat.zero_le _
  | succ k ih =>
    rw [fireUpTo] at h
    cases htake : t.schedule.takeDue? t.now with
    | none =>
      have hdue : t.schedule.dueBy t.now = [] :=
        Schedule.dueBy_eq_nil_iff.2 (Schedule.takeDue?_eq_none_iff.1 htake)
      intro c
      rw [hdue]
      exact Nat.zero_le _
    | some r =>
      obtain ⟨e, others⟩ := r
      obtain ⟨hdue, -, hperm⟩ := Schedule.of_takeDue? htake
      rw [htake] at h
      obtain ⟨t₁, happly, hfire⟩ : ∃ t₁, apply { t with schedule := others } e.stimulus = .ok t₁ ∧
          fireUpTo k t₁ = .ok t' := by
        replace h : (apply _ e.stimulus).bind (fireUpTo k) = .ok t' := h
        cases happly : apply { t with schedule := others } e.stimulus with
        | error f =>
          rw [happly] at h
          exact nomatch h
        | ok t₁ =>
          rw [happly] at h
          exact ⟨t₁, rfl, h⟩
      have hflight := inFlight_of_apply happly
      rw [apply_eq others hflight] at happly
      obtain rfl := Except.ok.inj happly
      have hlength := (Schedule.perm_due_cons hperm hdue).1.length_eq
      rw [List.length_cons] at hlength
      exact (solventBy_iff_of_perm hperm hdue).2
        ⟨hflight, ih hfire (by show (others.dueBy t.now).length ≤ k; omega)⟩

/-- **Everything that is due fires, and nothing else.** -/
theorem fireDue_eq {t : Tile} (h : t.SolventBy t.now) :
    ∃ rest, rest.Perm (t.schedule.dueAfter t.now) ∧
      t.fireDue = .ok (t.afterFiring (t.schedule.dueBy t.now) rest) :=
  fireUpTo_eq h (List.length_filter_le _ _)

/-- If it does, there was a transfer for everything that was to retire. -/
theorem of_fireDue {t t' : Tile} (h : t.fireDue = .ok t') :
    t.SolventBy t.now ∧ ∃ rest, rest.Perm (t.schedule.dueAfter t.now) ∧
      t' = t.afterFiring (t.schedule.dueBy t.now) rest := by
  have hsolvent := solventBy_of_fireUpTo h (List.length_filter_le _ _)
  obtain ⟨rest, hrest, hfire⟩ := fireDue_eq hsolvent
  exact ⟨hsolvent, rest, hrest, Except.ok.inj (h.symm.trans hfire)⟩

/-- **A sleep lasts until the next edge that wakes the hart**, and everything fires that is due
then. -/
theorem suspend_eq {t : Tile} (h : t.Solvent) (hcount : t.suspends + 1 < counterLimit) {due : Nat}
    (hdue : t.schedule.nextEdge? t.irqMask = some due) :
    ∃ rest, rest.Perm (t.schedule.dueAfter (max t.now due)) ∧
      t.suspend = .ok ({ t with now := max t.now due, suspends := t.suspends + 1 }.afterFiring
        (t.schedule.dueBy (max t.now due)) rest) := by
  have hsolvent : { t with now := max t.now due, suspends := t.suspends + 1 }.Solvent := h
  obtain ⟨rest, hrest, hfire⟩ := fireDue_eq (hsolvent.by _)
  refine ⟨rest, hrest, ?_⟩
  rw [suspend, if_pos hcount, sleepUntil, hdue]
  exact hfire

/-- A sleep that ends has been counted. -/
theorem suspends_lt_of_suspend {t t' : Tile} (h : t.suspend = .ok t') :
    t.suspends + 1 < counterLimit := by
  rw [suspend] at h
  split at h
  · assumption
  · simp at h

/-! ## What a move of the clock does

`Passes` is all that a move of the clock does, however it was moved and wherever to: there was a
transfer for everything that was to retire by then, what is due has fired, all else is left, and
nothing has changed besides.  What tells the moves apart is where the clock is afterwards. -/

/-- The clock has moved, and what has come due by then has fired. -/
structure Passes (t t' : Tile) : Prop where
  now_le : t.now ≤ t'.now
  solvent : t.SolventBy t'.now
  schedule : t'.schedule.Perm (t.schedule.dueAfter t'.now)
  buffer : t'.buffer = t.buffer ∪ (t.schedule.dueBy t'.now).lines
  transfers : t'.transfers = t.retired (t.schedule.dueBy t'.now)
  mask : t'.mask = t.mask
  irqMask : t'.irqMask = t.irqMask

/-- Two moves of the clock are one. -/
theorem Passes.trans {t t' t'' : Tile} (h : Passes t t') (h' : Passes t' t'') : Passes t t'' := by
  obtain ⟨hby, hafter⟩ := Schedule.perm_due_of_le h'.now_le h.schedule
  have hretirements := Schedule.retirements_dueBy_of_le h'.now_le h.schedule
  refine ⟨Nat.le_trans h.now_le h'.now_le, fun c ↦ ?_, h'.schedule.trans hafter, ?_, ?_,
    h'.mask.trans h.mask, h'.irqMask.trans h.irqMask⟩
  · have hfirst := h.solvent c
    have hthen := h'.solvent c
    rw [h.transfers, retired] at hthen
    rw [hretirements]
    dsimp only at hthen
    omega
  · rw [h'.buffer, h.buffer, ← Schedule.lines_perm hby, Schedule.lines_append,
      EventMask.union_assoc]
  · funext c
    rw [h'.transfers, retired, h.transfers, retired, retired, hretirements, Nat.add_assoc]

/-- The clock moves to a time, and everything that is due then fires. -/
theorem passes_fireDue {t t' : Tile} {now : Nat} (h : { t with now := now }.fireDue = .ok t')
    (hle : t.now ≤ now) : t'.now = now ∧ Passes t t' := by
  obtain ⟨hsolvent, rest, hrest, rfl⟩ := of_fireDue h
  exact ⟨rfl, hle, hsolvent, hrest, rfl, rfl, rfl, rfl⟩

/-- **A delay is over after its cycles.** -/
theorem passes_advance {t t' : Tile} {cycles : Nat} (h : t.advance cycles = .ok t') :
    t'.now = t.now + cycles ∧ Passes t t' := by
  rw [advance] at h
  split at h
  · exact nomatch h
  · exact passes_fireDue h (Nat.le_add_right _ _)

/-- **A sleep is over at the next edge of a line that it was for**, and at once if that is
overdue. -/
theorem passes_sleepUntil {t t' : Tile} {m : EventMask} (h : t.sleepUntil m = .ok t') :
    ∃ due, t.schedule.nextEdge? m = some due ∧ t'.now = max t.now due ∧ Passes t t' := by
  rw [sleepUntil] at h
  cases hdue : t.schedule.nextEdge? m with
  | none =>
    rw [hdue] at h
    exact nomatch h
  | some due =>
    rw [hdue] at h
    obtain ⟨hnow, hpasses⟩ := passes_fireDue h (Nat.le_max_left _ _)
    exact ⟨due, rfl, hnow, hpasses⟩

/-- The hart sleeps until the next edge of a line that wakes it. -/
theorem passes_suspend {t t' : Tile} (h : t.suspend = .ok t') :
    ∃ due, t.schedule.nextEdge? t.irqMask = some due ∧ t'.now = max t.now due ∧ Passes t t' := by
  rw [suspend] at h
  split at h
  · obtain ⟨due, hdue, hnow, hpasses⟩ := passes_sleepUntil h
    exact ⟨due, hdue, hnow, hpasses.now_le, hpasses.solvent, hpasses.schedule, hpasses.buffer,
      hpasses.transfers, hpasses.mask, hpasses.irqMask⟩
  · exact nomatch h

/-- After the clock has moved, nothing is left that is due. -/
theorem Passes.later {t t' : Tile} (h : Passes t t') : ∀ e ∈ t'.schedule, t'.now < e.due :=
  fun _ he ↦ (Schedule.mem_dueAfter.1 (h.schedule.mem_iff.1 he)).2

/-- What has fired was scheduled, and it has raised its lines. -/
def Fired (t : Tile) (fired : Schedule) (t' : Tile) : Prop :=
  t.schedule.Perm (fired ++ t'.schedule) ∧ t'.buffer = t.buffer ∪ fired.lines

theorem Passes.fired {t t' : Tile} (h : Passes t t') : Fired t (t.schedule.dueBy t'.now) t' :=
  ⟨(t.schedule.perm_due t'.now).trans (h.schedule.symm.append_left _), h.buffer⟩

end Tile
end TileEvents
