import TileEvents.Proofs.Happening

/-!
# On time, and only once

A `History` of a tile is single happenings one after the other, from one tile to another.  Nothing
that is scheduled gets lost in one: it has fired or it is in the schedule still, each entry as often
as it was scheduled (`History.conserves`).  It waits there through everything that does not move the
clock to its time (`History.waits`), and the first happening that does fires it.  `Punctual` is all
of this for a history from the tile on to which nothing has happened, together with what it means
for the lines and for the transfers; `History.punctual` is that every such history is so.

A life is a history, with as many happenings to each step as the step takes
(`Life.exists_history`).  So no operation of a driver, whichever of its accesses it is in the middle
of, makes an exception.
-/

set_option autoImplicit false

namespace TileEvents

/-! ## Histories -/

/-- Something that happened, and the tile before and after it. -/
structure Happened where
  happening : Happening
  before : Tile
  after : Tile

namespace Happened

/-- What it scheduled. -/
def scheduled (x : Happened) : Schedule := x.happening.schedules x.before

/-- What fired in it: what was scheduled and is not any more. -/
def fired (x : Happened) : Schedule := (x.before.schedule ++ x.scheduled).diff x.after.schedule

/-- It moved the clock, if only by no cycles, and left it at a time or past it. -/
def Reaches (x : Happened) (due : Nat) : Prop :=
  x.happening.ticks x.before = true ∧ due ≤ x.after.now

end Happened

/-- What was scheduled. -/
def plannedIn (log : List Happened) : Schedule := log.flatMap Happened.scheduled

/-- What fired, in order. -/
def firedIn (log : List Happened) : Schedule := log.flatMap Happened.fired

/-- Things happened one after the other. -/
inductive History : Tile → List Happened → Tile → Prop
  | rest (t : Tile) : History t [] t
  | step {x : Happened} {log : List Happened} {t : Tile} (h : x.happening.Takes x.before x.after)
      (hrest : History x.after log t) : History x.before (x :: log) t

/-- What something that happened did while these fired. -/
theorem Happened.effect {x : Happened} (h : x.happening.Takes x.before x.after) :
    x.happening.Effect x.before x.fired x.after :=
  h.effect.of_perm h.effect.perm_diff

namespace History

variable {t t' : Tile} {log log' : List Happened} {e : Entry}

theorem of_cons {x : Happened} (h : History t (x :: log) t') :
    t = x.before ∧ x.happening.Takes x.before x.after ∧ History x.after log t' := by
  cases h with
  | step hx hrest => exact ⟨rfl, hx, hrest⟩

theorem append (h : History t log t') {t'' : Tile} (h' : History t' log' t'') :
    History t (log ++ log') t'' := by
  induction h with
  | rest t => exact h'
  | step h _ ih => exact .step h (ih h')

theorem exists_of_append (h : History t (log ++ log') t') :
    ∃ u, History t log u ∧ History u log' t' := by
  induction log generalizing t with
  | nil => exact ⟨t, .rest t, h⟩
  | cons x log ih =>
    obtain ⟨rfl, hx, hrest⟩ := h.of_cons
    obtain ⟨u, hlog, hlog'⟩ := ih hrest
    exact ⟨u, .step hx hlog, hlog'⟩

/-- A history up to something that happened in it, and from there on. -/
theorem split {past later : List Happened} {x : Happened} (h : History t (past ++ x :: later) t') :
    History t past x.before ∧ History x.before (x :: later) t' := by
  obtain ⟨u, hpast, hrest⟩ := h.exists_of_append
  obtain ⟨rfl, -⟩ := hrest.of_cons
  exact ⟨hpast, hrest⟩

theorem effect_of_mem (h : History t log t') {x : Happened} (hx : x ∈ log) :
    x.happening.Effect x.before x.fired x.after := by
  obtain ⟨past, later, rfl⟩ := List.append_of_mem hx
  exact Happened.effect h.split.2.of_cons.2.1

/-- **Nothing gets lost**: what was in the schedule or was scheduled has fired or is there still. -/
theorem conserves (h : History t log t') :
    (t.schedule ++ plannedIn log).Perm (firedIn log ++ t'.schedule) := by
  induction h with
  | rest t => exact .of_eq (List.append_nil _)
  | @step x log t' h _ ih =>
    have hfirst : (x.before.schedule ++ x.scheduled).Perm (x.fired ++ x.after.schedule) :=
      (Happened.effect h).perm
    show (x.before.schedule ++ (x.scheduled ++ plannedIn log)).Perm
      (x.fired ++ firedIn log ++ t'.schedule)
    -- what the first leaves in the schedule is what the others find there
    rw [← List.append_assoc, List.append_assoc x.fired]
    refine (hfirst.append_right _).trans ?_
    rw [List.append_assoc]
    exact ih.append_left _

/-- An entry that is not left has fired as often as it was there or was scheduled. -/
theorem count_firedIn (h : History t log t') (hgone : e ∉ t'.schedule) :
    (firedIn log).count e = t.schedule.count e + (plannedIn log).count e := by
  have hcount := h.conserves.count_eq e
  rw [List.count_append, List.count_append, List.count_eq_zero_of_not_mem hgone,
    Nat.add_zero] at hcount
  exact hcount.symm

/-- Nothing is ever overdue. -/
theorem now_le_due (h : History t log t') (hdue : ∀ e ∈ t.schedule, t.now ≤ e.due) :
    ∀ e ∈ t'.schedule, t'.now ≤ e.due := by
  induction h with
  | rest t => exact hdue
  | step h _ ih => exact ih ((Happened.effect h).now_le_due hdue)

/-- **An entry waits through everything that does not bring the clock to its time.** -/
theorem waits (h : History t log t') (he : e ∈ t.schedule) (hnot : ∀ x ∈ log, ¬ x.Reaches e.due) :
    e ∉ firedIn log ∧ e ∈ t'.schedule := by
  induction h with
  | rest t => exact ⟨List.not_mem_nil, he⟩
  | @step x log t' h _ ih =>
    obtain ⟨hfirst, hleft⟩ :=
      (Happened.effect h).waits (List.mem_append_left _ he) (hnot x (.head log))
    obtain ⟨hrest, hend⟩ := ih hleft fun y hy ↦ hnot y (.tail x hy)
    exact ⟨fun hmem ↦ (List.mem_append.1 hmem).elim hfirst hrest, hend⟩

/-- What is scheduled waits likewise. -/
theorem waits_from {x : Happened} (h : History t (x :: log) t') (he : e ∈ x.scheduled)
    (hnot : ∀ y ∈ log, ¬ y.Reaches e.due) : e ∉ firedIn (x :: log) ∧ e ∈ t'.schedule := by
  obtain ⟨rfl, hx, hrest⟩ := h.of_cons
  -- what schedules something does not move the clock
  have hstill : ¬ x.Reaches e.due := fun hreaches ↦ by
    have hnone : x.scheduled = [] := Happening.schedules_of_ticks hreaches.1
    rw [hnone] at he
    exact List.not_mem_nil he
  obtain ⟨hfirst, hleft⟩ := (Happened.effect hx).waits (List.mem_append_right _ he) hstill
  obtain ⟨hlater, hend⟩ := hrest.waits hleft hnot
  exact ⟨fun hmem ↦ (List.mem_append.1 hmem).elim hfirst hlater, hend⟩

/-- **It fires with the first that brings the clock to its time**, and only as often as it was
scheduled. -/
theorem fires {past mid later : List Happened} {x y : Happened}
    (h : History t (past ++ x :: mid ++ y :: later) t') (he : e ∈ x.scheduled)
    (hnot : ∀ z ∈ mid, ¬ z.Reaches e.due) (hy : y.Reaches e.due) :
    e ∉ firedIn (x :: mid) ∧ e ∈ y.fired ∧
      (firedIn (past ++ x :: mid ++ [y])).count e =
        t.schedule.count e + (plannedIn (past ++ x :: mid ++ [y])).count e ∧
      (firedIn later).count e ≤ (plannedIn later).count e := by
  obtain ⟨hbefore, hrest⟩ := h.split
  obtain ⟨hwaits, hthere⟩ := hbefore.split.2.waits_from he hnot
  obtain ⟨-, hstep, hlater⟩ := hrest.of_cons
  obtain ⟨hcount, hgone⟩ := (Happened.effect hstep).count_fired hy.1 hy.2
  refine ⟨hwaits, ?_, (hbefore.append (.step hstep (.rest _))).count_firedIn hgone, ?_⟩
  · rw [← List.count_pos_iff, hcount]
    exact List.count_pos_iff.2 hthere
  · -- no copy is left behind, so whatever fires later was scheduled later
    have hkept := hlater.conserves.count_eq e
    rw [List.count_append, List.count_append, List.count_eq_zero_of_not_mem hgone] at hkept
    omega

end History

/-! ## Punctual histories -/

/-- Everything fires on time and once, and lines go down only where they are taken down. -/
structure Punctual (log : List Happened) (t : Tile) : Prop where
  /-- Nothing in the schedule is overdue. -/
  due : ∀ e ∈ t.schedule, t.now ≤ e.due
  /-- The clock never goes back, and stands still unless it is moved. -/
  clock : ∀ x ∈ log, x.before.now ≤ x.after.now ∧
    (x.happening.ticks x.before = false → x.after.now = x.before.now)
  /-- Whatever was scheduled has fired or is to fire still, as often as it was scheduled. -/
  once : (plannedIn log).Perm (firedIn log ++ t.schedule)
  /-- Nothing fires before its time, or while the clock is not moved. -/
  early : ∀ x ∈ log, ∀ e ∈ x.fired, x.Reaches e.due
  /-- Whatever brings the clock to the time of an entry fires it, and all copies of it. -/
  late : ∀ x ∈ log, ∀ e : Entry, x.Reaches e.due →
    x.fired.count e = x.before.schedule.count e ∧ e ∉ x.after.schedule
  /-- The first to do so since the entry was scheduled fires it.  By then it has fired as often as
  it was scheduled, and it does not fire again more often than it is scheduled again. -/
  first : ∀ past x mid y later e, log = past ++ x :: mid ++ y :: later → e ∈ x.scheduled →
    (∀ z ∈ mid, ¬ z.Reaches e.due) → y.Reaches e.due →
    e ∉ firedIn (x :: mid) ∧ e ∈ y.fired ∧
      (firedIn (past ++ x :: mid ++ [y])).count e =
        (plannedIn (past ++ x :: mid ++ [y])).count e ∧
      (firedIn later).count e ≤ (plannedIn later).count e
  /-- Until something does, it is in the schedule. -/
  waits : ∀ past x later e, log = past ++ x :: later → e ∈ x.scheduled →
    (∀ z ∈ later, ¬ z.Reaches e.due) → e ∉ firedIn (x :: later) ∧ e ∈ t.schedule
  /-- What fires raises its lines and retires its transfers. -/
  does : ∀ x ∈ log,
    x.after.buffer =
      (x.before.buffer ∪ x.fired.lines ∪ x.happening.raises) \ x.happening.takesDown ∧
    ∀ c, (x.after.transfers c).done = (x.before.transfers c).done + x.fired.retirements c
  /-- A line goes down only where it is written to the clearing register, and where the waiting
  register that clears is read. -/
  down : ∀ x ∈ log, ∀ b, b ∈ x.before.buffer → ¬ b ∈ x.after.buffer →
    ∃ hart o value,
      (EventUnit.Register.ofOffset? o = some .bufferClear ∧
        x.happening = .act hart (.write .eventUnit o value) ∧ b ∈ (⟨value⟩ : EventMask)) ∨
      (EventUnit.Register.ofOffset? o = some .eventWaitClear ∧
        x.happening = .act hart (.read .eventUnit o value))

/-- **Whatever happens to a tile, everything fires on time and once.** -/
theorem Punctual.of_history {log : List Happened} {t : Tile} (h : History .initial log t) :
    Punctual log t where
  due := h.now_le_due fun _ he ↦ absurd he List.not_mem_nil
  clock x hx := ⟨(h.effect_of_mem hx).now_le, (h.effect_of_mem hx).still⟩
  once := h.conserves
  early x hx := (h.effect_of_mem hx).due
  late x hx e hreaches := (h.effect_of_mem hx).count_fired hreaches.1 hreaches.2
  first past x mid y later e hlog he hnot hy := by
    subst hlog
    have hfires := h.fires he hnot hy
    rwa [Tile.initial, List.count_nil, Nat.zero_add] at hfires
  waits past x later e hlog he hnot := by
    subst hlog
    exact h.split.2.waits_from he hnot
  does x hx := ⟨(h.effect_of_mem hx).buffer, (h.effect_of_mem hx).done⟩
  down x hx b hup hdown :=
    Happening.exists_of_mem_takesDown ((h.effect_of_mem hx).mem_takesDown hup hdown)

/-! ## Lives, from close up -/

/-- What happens in the step, between one tile and the other. -/
def TileStep.MadeOf (t t' : Tile) (hs : List Happening) : TileStep → Prop
  | command c => ∃ (hart : Hart) (v : Verbosity) (n n' : Nat) (a : Answer) (es : List Event),
      hart.platform.run (c.driver.program v n) t = ⟨es, .returned (a, n') t'⟩ ∧
        hs = es.map (.act hart)
  | raise m => hs = [.raise m]
  | raiseAfter m cycles => hs = [.schedule (.edge m) cycles]
  | retireAfter d index cycles =>
    match Channel.ofIndex d index with
    | .ok c => hs = [.schedule (.retire c) cycles]
    | .error _ => hs = []
  | setClock on => hs = [.setClock on]
  | readRegister w o => ∃ value, hs = [.act .own (.read w o value)]
  | writeRegister w o value => hs = [.act .own (.write w o value)]

/-- The history is that of the steps, one after the other. -/
inductive Details : List Taken → List Happened → Prop
  | rest : Details [] []
  | step {x : Taken} {taken : List Taken} {part log : List Happened}
      (hpart : History x.before part x.after)
      (hmade : x.step.MadeOf x.before x.after (part.map Happened.happening))
      (hrest : Details taken log) : Details (x :: taken) (part ++ log)

/-- The moments of a hart's walk as what happens to the tile. -/
def Hart.log (hart : Hart) (ms : List (Moment Tile)) : List Happened :=
  ms.map fun m ↦ ⟨.act hart m.event, m.before, m.after⟩

theorem History.of_walk {hart : Hart} {ms : List (Moment Tile)} {t t' : Tile}
    (h : hart.platform.Walk t ms t') : History t (hart.log ms) t' := by
  induction h with
  | rest t => exact .rest t
  | @step s s₁ s' action reply ms h _ ih =>
    exact .step (x := ⟨.act hart (.ofReply action reply), s, s₁⟩) ⟨action, reply, h, rfl⟩ ih

theorem History.single {h : Happening} {t t' : Tile} (ht : h.Takes t t') :
    History t [⟨h, t, t'⟩] t' :=
  .step (x := ⟨h, t, t'⟩) ht (.rest t')

namespace TileStep

variable {step : TileStep} {t t' : Tile}

/-- One thing happens in the step. -/
theorem exists_history_single {h : Happening} (ht : h.Takes t t')
    (hmade : step.MadeOf t t' [h]) :
    ∃ part, History t part t' ∧ step.MadeOf t t' (part.map Happened.happening) :=
  ⟨_, .single ht, hmade⟩

/-- **Every step is made of single happenings.** -/
theorem Takes.exists_history (h : step.Takes t t') :
    ∃ part, History t part t' ∧ step.MadeOf t t' (part.map Happened.happening) := by
  cases step with
  | command c =>
    obtain ⟨p, hp, v, n, a, n', hreturns⟩ := h
    obtain ⟨hart, rfl⟩ := hp.exists_hart
    rcases hrun : hart.platform.run (c.driver.program v n) t with ⟨es, outcome⟩
    rw [Platform.Returns, hrun] at hreturns
    obtain rfl : outcome = .returned (a, n') t' := hreturns
    obtain ⟨ms, hms, hwalk⟩ := Platform.exists_walk hrun
    refine ⟨hart.log ms, .of_walk hwalk, hart, v, n, n', a, es, hrun, ?_⟩
    rw [Hart.log, ← hms, List.map_map, List.map_map]
    rfl
  | raise m => exact exists_history_single (h := .raise m) h.of_raise rfl
  | raiseAfter m cycles =>
    exact exists_history_single (h := .schedule (.edge m) cycles) h.of_raiseAfter rfl
  | retireAfter d index cycles =>
    obtain ⟨c, hc, hschedule⟩ | ⟨⟨e, hc⟩, rfl⟩ := h.of_retireAfter
    · exact exists_history_single (h := .schedule (.retire c) cycles) hschedule (by rw [MadeOf, hc])
    · refine ⟨[], .rest t', ?_⟩
      rw [MadeOf, hc]
      rfl
  | setClock on => exact exists_history_single (h := .setClock on) h.of_setClock rfl
  | readRegister w o =>
    obtain ⟨value, hanswer⟩ := h.of_readRegister
    exact exists_history_single (h := .act .own (.read w o value))
      ⟨.read w o, value, hanswer, rfl⟩ ⟨value, rfl⟩
  | writeRegister w o value =>
    exact exists_history_single (h := .act .own (.write w o value))
      ⟨.write w o value, (), h.of_writeRegister, rfl⟩ rfl

end TileStep

/-- **Every life is a history.** -/
theorem Life.exists_history {t t' : Tile} {taken : List Taken} (h : Life t taken t') :
    ∃ log, History t log t' ∧ Details taken log := by
  induction h with
  | rest t => exact ⟨[], .rest t, .rest⟩
  | step h _ ih =>
    obtain ⟨part, hpart, hmade⟩ := h.exists_history
    obtain ⟨log, hlog, hdetails⟩ := ih
    exact ⟨part ++ log, hpart.append hlog, .step hpart hmade hdetails⟩

/-- **Everything that is scheduled fires once and on time, and lines go down only where they are
taken down.**  That is so of everything that can happen to a tile to which nothing has happened yet,
one thing after the other; and all that steps and operations of drivers do to it is of that kind. -/
theorem History.punctual :
    (∀ log t, History .initial log t → Punctual log t) ∧
    ∀ taken t, Life .initial taken t → ∃ log, History .initial log t ∧ Details taken log :=
  ⟨fun _ _ h ↦ .of_history h, fun _ _ h ↦ h.exists_history⟩

namespace History

/-- An edge that is two cycles away. -/
def edge : Entry := ⟨2, .edge Line.accDone.mask⟩

def planned : Tile := { Tile.initial with schedule := [edge] }

def underway : Tile := { planned with now := 1 }

def arrived : Tile := { Tile.initial with now := 4, buffer := Line.accDone.mask }

/-- The first of two delays ends before the edge, and the second after it. -/
def twoDelays : List Happened :=
  [⟨.schedule edge.stimulus 2, .initial, planned⟩, ⟨.act .own (.spin 1), planned, underway⟩,
    ⟨.act .own (.spin 3), underway, arrived⟩]

theorem of_twoDelays : History .initial twoDelays arrived :=
  .step (x := ⟨.schedule edge.stimulus 2, .initial, planned⟩) rfl <|
    .step (x := ⟨.act .own (.spin 1), planned, underway⟩) ⟨.spin 1, (), rfl, rfl⟩ <|
      .step (x := ⟨.act .own (.spin 3), underway, arrived⟩) ⟨.spin 3, (), rfl, rfl⟩ (.rest arrived)

/-- The edge fires in the second delay, also where the delays are operations of a driver. -/
theorem punctual_twoDelays :
    (∃ x y z, twoDelays = [x, y, z] ∧ edge ∈ x.scheduled ∧ edge ∉ y.fired ∧ edge ∈ z.fired) ∧
    ∃ taken log t, taken.map Taken.step =
        [.raiseAfter Line.accDone.mask 2, .command (.spin 1), .command (.spin 3)] ∧
      Details taken log ∧ Punctual log t ∧ t.now = 4 := by
  obtain ⟨hpunctual, hlives⟩ := punctual
  constructor
  · have hfirst := (hpunctual _ _ of_twoDelays).first [] _ [_] _ [] edge rfl (.head _)
      (fun z hz hreaches ↦ by
        obtain rfl := List.mem_singleton.1 hz
        exact absurd hreaches.2 (by decide))
      ⟨rfl, by decide⟩
    obtain ⟨hwaits, hfires, -⟩ := hfirst
    refine ⟨_, _, _, rfl, .head _, fun hmem ↦ hwaits ?_, hfires⟩
    exact List.mem_append_right _ (List.mem_append_left _ hmem)
  · obtain ⟨rows, t, hplay, hnow⟩ : ∃ rows t,
        play (TileStep.run Tile.platform none)
          [.raiseAfter Line.accDone.mask 2, .command (.spin 1), .command (.spin 3)] .initial =
            ⟨rows, .finished t⟩ ∧ t.now = 4 := ⟨_, _, rfl, rfl⟩
    obtain ⟨taken, hsteps, hlife⟩ := Life.of_play Tile.isHart_platform hplay
    obtain ⟨log, hlog, hdetails⟩ := hlives taken t hlife
    exact ⟨taken, log, t, hsteps, hdetails, hpunctual log t hlog, hnow⟩

end History
end TileEvents
