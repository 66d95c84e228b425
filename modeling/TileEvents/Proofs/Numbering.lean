import TileEvents.Proofs.KeepsMasks
import TileEvents.Proofs.Life
import TileEvents.Proofs.Queries

/-!
# The numbers of transfers

A channel numbers its transfers 1, 2, 3 and so on, and remembers how many have retired.  Both counts
live behind one register for each channel, and time passes in nearly every operation, so transfers
retire while something else is going on.

Of all steps only launches start a transfer, and reads of the register behind them
(`TileStep.launches?`).  A step adds one to the count of that channel and adds what fires meanwhile
to the counts of the channels it is for (`TileStep.Counts`), and nothing else happens to any count.
So the history of a tile can be read off its chronicle (`Chronicle.numbering`): a channel's launches
were answered with 1, 2, 3 and so on whatever happened on the others, and it is busy while fewer of
its transfers have retired than it was asked for.
-/

set_option autoImplicit false

namespace TileEvents

/-! ## What starts a transfer -/

/-- The channel that the command starts a transfer on. -/
def Command.launches? : Command → Option Channel
  | launch d index => (Channel.ofIndex d index).toOption
  | _ => none

/-- The channel that the step starts a transfer on. -/
def TileStep.launches? : TileStep → Option Channel
  | command c => c.launches?
  | readRegister w o => (Event.read w o 0).launched?
  | _ => none

/-- What the step schedules. -/
def TileStep.schedules (t : Tile) : TileStep → Schedule
  | raiseAfter m cycles => [⟨t.now + cycles, .edge m⟩]
  | retireAfter d index cycles =>
    match Channel.ofIndex d index with
    | .ok c => [⟨t.now + cycles, .retire c⟩]
    | .error _ => []
  | _ => []

/-- What is read is of no account. -/
theorem Event.launched?_read (w : Window) (o : Nat) (value value' : UInt32) :
    (read w o value).launched? = (read w o value').launched? := by
  cases w <;> rfl

/-- Records start no transfers. -/
theorem filterMap_records {records : List Event} (h : EventUnit.Records records) :
    records.filterMap Event.launched? = [] := by
  refine List.filterMap_eq_nil_iff.2 fun e he ↦ ?_
  obtain ⟨severity, text, rfl⟩ := h e he
  rfl

namespace Driver

variable {α β : Type}

/-- The driver starts no transfer. -/
def StartsNone (x : Driver α) : Prop :=
  ∀ ⦃v : Verbosity⦄ ⦃n : Nat⦄ ⦃es : List Event⦄ ⦃a : α⦄ ⦃n' : Nat⦄, x.Does v n es a n' →
    es.filterMap Event.launched? = []

theorem Mild.startsNone {x : Driver α} (hx : x.Mild) : x.StartsNone :=
  fun _ _ _ _ _ h ↦ List.filterMap_eq_nil_iff.2 fun e he ↦ (hx h e he).launched?_eq_none

theorem startsNone_write (w : Window) (offset : Nat) (value : UInt32) :
    (write w offset value).StartsNone := by
  intro v n es u n' h
  obtain ⟨rfl, -⟩ := does_write_iff.1 h
  rfl

theorem StartsNone.bind {x : Driver α} {f : α → Driver β} (hx : x.StartsNone)
    (hf : ∀ a, (f a).StartsNone) : (x >>= f).StartsNone := by
  intro v n es b n' h
  obtain ⟨es₁, a, n₁, es₂, rfl, h₁, h₂⟩ := does_bind_iff.1 h
  rw [List.filterMap_append, hx h₁, hf a h₂, List.append_nil]

end Driver

/-- **A launch starts one transfer, and no other command starts any.** -/
theorem Command.filterMap_launched {c : Command} {v : Verbosity} {n n' : Nat} {es : List Event}
    {a : Answer} (h : c.driver.Does v n es a n') :
    es.filterMap Event.launched? = c.launches?.toList := by
  cases c with
  | launch d index =>
    obtain ⟨rfl, hnone⟩ | ⟨c, hc, hdoes⟩ := does_onChannel h
    · rw [launches?]
      cases hc : Channel.ofIndex d index with
      | ok c => exact absurd hc (hnone c)
      | error e => rfl
    · rw [map_eq_pure_bind] at hdoes
      obtain ⟨transfer, -, hlaunch⟩ := Driver.does_bind_pure_iff.1 hdoes
      obtain ⟨records, hrecords, rfl⟩ := Dma.does_launch hlaunch
      have hlaunched : (Event.read .dma (Dma.Register.offset ⟨.nextId, c⟩)
          transfer.number).launched? = some c := by
        rw [Event.launched?, Dma.Register.ofOffset?_offset]
      rw [List.filterMap_cons_some hlaunched, filterMap_records hrecords, launches?, hc]
      rfl
  | init =>
    exact (((Driver.startsNone_write _ _ _).bind fun _ ↦ (Driver.startsNone_write _ _ _).bind
      fun _ ↦ Driver.startsNone_write _ _ _).bind
        fun _ ↦ (Driver.mild_pure Answer.ok).startsNone) h
  | disable | disableIrq =>
    exact ((Driver.startsNone_write _ _ _).bind
      fun _ ↦ (Driver.mild_pure Answer.ok).startsNone) h
  | _ => exact (mild id id).startsNone h

/-! ## One step -/

/-- A register that starts a transfer shows its number. -/
theorem Tile.of_readDma_launched {t t' : Tile} {o : Nat} {value v : UInt32} {c : Channel}
    (h : t.readDma o = .ok (value, t')) (hlaunched : (Event.read .dma o v).launched? = some c) :
    (t.transfers c).issued + 1 < counterLimit ∧
      value = UInt32.ofNat ((t.transfers c).issued + 1) := by
  rw [Event.launched?] at hlaunched
  split at hlaunched
  · next c' hr =>
    obtain rfl := Option.some.inj hlaunched
    rw [readDma, hr] at h
    dsimp only at h
    split at h
    · next hlt => exact ⟨hlt, (Prod.mk.inj (Except.ok.inj h)).1.symm⟩
    · cases h
  · cases hlaunched

namespace TileStep

/-- What a step does to the counts, and which entries fire meanwhile. -/
structure Counts (step : TileStep) (t : Tile) (fired : Schedule) (t' : Tile) : Prop where
  /-- Entries that were there or were scheduled have fired or are left. -/
  perm : (t.schedule ++ step.schedules t).Perm (fired ++ t'.schedule)
  due : ∀ e ∈ fired, e.due ≤ t'.now
  now_le : t.now ≤ t'.now
  transfers : ∀ c, t'.transfers c =
    { issued := (t.transfers c).issued + if step.launches? = some c then 1 else 0
      done := (t.transfers c).done + fired.retirements c }
  counted : t.Counted → t'.Counted

variable {step : TileStep} {t t' : Tile} {a : Answer} {c : Channel}

theorem count_toList (o : Option Channel) (c : Channel) :
    o.toList.count c = if o = some c then 1 else 0 := by
  cases o with
  | none => rfl
  | some c' => simp [List.count_singleton]

/-- The step drives the tile, and schedules nothing. -/
theorem exists_counts_of_since (hsince : ∃ fired, Tile.Since t fired t')
    (hissues : Tile.Issues t step.launches?.toList t') (hschedules : step.schedules t = []) :
    ∃ fired, step.Counts t fired t' := by
  obtain ⟨fired, hsince⟩ := hsince
  refine ⟨fired, ?_, hsince.due, hsince.now_le, fun c ↦ ?_, hissues.counted⟩
  · rw [hschedules, List.append_nil]
    exact hsince.perm
  · rw [← hsince.done, ← count_toList, ← hissues.issued]

/-- The step leaves the clock and the counts alone. -/
theorem Counts.of_still (hschedule : t'.schedule = t.schedule ++ step.schedules t)
    (hnow : t'.now = t.now) (htransfers : t'.transfers = t.transfers)
    (hlaunches : step.launches? = none) : step.Counts t [] t' where
  perm := .of_eq hschedule.symm
  due _ he := absurd he List.not_mem_nil
  now_le := Nat.le_of_eq hnow.symm
  transfers c := by
    rw [htransfers, hlaunches]
    rfl
  counted h c := htransfers ▸ h c

/-- What is scheduled does not happen yet. -/
theorem Counts.of_scheduleAfter {s : Stimulus} {cycles : Nat}
    (h : t.scheduleAfter s cycles = .ok t')
    (hschedules : step.schedules t = [⟨t.now + cycles, s⟩]) (hlaunches : step.launches? = none) :
    step.Counts t [] t' := by
  rw [Tile.of_scheduleAfter h]
  exact .of_still (by rw [hschedules]) rfl rfl hlaunches

/-- **A step adds a launch to one channel at most, and to the others nothing but what fires.** -/
theorem Takes.exists_counts (h : step.Takes t t') : ∃ fired, step.Counts t fired t' := by
  cases step with
  | command c =>
    obtain ⟨p, hp, v, n, a, n', hreturns⟩ := h
    obtain ⟨ms, -, hcompletes⟩ := Platform.completes_of_run (congrArg (Run.mk _) hreturns)
    obtain ⟨v', k, k', hdoes⟩ := hcompletes.does
    obtain ⟨hsince, -, hissues⟩ := Tile.leaves_walk hp hcompletes.walk
    have hlaunched : Tile.launchedIn ms = c.launches?.toList := by
      rw [← Command.filterMap_launched hdoes, List.filterMap_map]
      rfl
    exact exists_counts_of_since hsince (hlaunched ▸ hissues) rfl
  | raise m =>
    obtain rfl := h.of_raise
    exact ⟨[], .of_still (List.append_nil _).symm rfl rfl rfl⟩
  | raiseAfter m cycles => exact ⟨[], .of_scheduleAfter h.of_raiseAfter rfl rfl⟩
  | retireAfter d index cycles =>
    obtain ⟨c, hc, hschedule⟩ | ⟨⟨e, hc⟩, rfl⟩ := h.of_retireAfter
    · exact ⟨[], .of_scheduleAfter hschedule (by rw [schedules, hc]) rfl⟩
    · exact ⟨[], .of_still (by rw [schedules, hc, List.append_nil]) rfl rfl rfl⟩
  | setClock on =>
    obtain rfl := h.of_setClock
    exact ⟨[], .of_still (List.append_nil _).symm rfl rfl rfl⟩
  | readRegister w o =>
    obtain ⟨value, hanswer⟩ := h.of_readRegister
    have hleaves := Tile.leaves_answer Tile.isHart_platform hanswer
    have hissues : Tile.Issues t (Event.read w o value).launched?.toList t' := hleaves.issues
    rw [Event.launched?_read w o value 0] at hissues
    exact exists_counts_of_since hleaves.since hissues rfl
  | writeRegister w o value =>
    have hleaves := Tile.leaves_answer Tile.isHart_platform h.of_writeRegister
    exact exists_counts_of_since hleaves.since hleaves.issues rfl

/-- **What starts a transfer is answered with its number.** -/
theorem Yields.answer_eq (h : step.Yields t a t') (hlaunches : step.launches? = some c) :
    (t.transfers c).issued + 1 < counterLimit ∧
      a = .ofTransfer ⟨UInt32.ofNat ((t.transfers c).issued + 1)⟩ := by
  cases step with
  | command x =>
    cases x with
    | launch d index =>
      obtain ⟨p, hp, v, n, n', hreturns⟩ := h
      have hc : Channel.ofIndex d index = .ok c := by
        rw [launches?, Command.launches?] at hlaunches
        cases hc : Channel.ofIndex d index with
        | ok c' =>
          rw [hc] at hlaunches
          exact congrArg Except.ok (Option.some.inj hlaunches)
        | error e =>
          rw [hc] at hlaunches
          cases hlaunches
      rw [Command.driver, Command.onChannel, hc] at hreturns
      dsimp only at hreturns
      rw [map_eq_pure_bind] at hreturns
      obtain ⟨transfer, n₁, t₁, hlaunch, hend⟩ := Platform.returns_bind_iff.1 hreturns
      obtain ⟨-, hlt, rfl, -⟩ := (Dma.returns_launch_iff hp).1 hlaunch
      obtain ⟨rfl, -, -⟩ := hend.unique (Platform.returns_pure _)
      exact ⟨hlt, rfl⟩
    | _ => cases hlaunches
  | readRegister w o =>
    obtain ⟨p, v, hrun⟩ := h
    obtain ⟨⟨value, t₁⟩, hread, heq⟩ := exists_of_map (eq_of_byHand hrun)
    obtain ⟨rfl, -⟩ := Prod.mk.inj heq
    cases w with
    | eventUnit => cases hlaunches
    | dma =>
      obtain ⟨hlt, hvalue⟩ := Tile.of_readDma_launched (v := 0) hread hlaunches
      exact ⟨hlt, congrArg Answer.word hvalue⟩
  | _ => cases hlaunches

end TileStep

/-! ## A whole chronicle -/

theorem Tile.counted_initial : Tile.initial.Counted := fun _ ↦
  ⟨Nat.le_refl 0, by show 0 < counterLimit; decide⟩

/-- The launches on a channel, by their answers. -/
def launchesOn (log : List Noted) (c : Channel) : List Answer :=
  (log.filter fun x ↦ x.step.launches? = some c).map Noted.answer

/-- Everything that was scheduled. -/
def scheduledIn (log : List Noted) : Schedule := log.flatMap fun x ↦ x.step.schedules x.before

theorem launchesOn_cons (x : Noted) (log : List Noted) (c : Channel) :
    launchesOn (x :: log) c =
      if x.step.launches? = some c then x.answer :: launchesOn log c else launchesOn log c := by
  rw [launchesOn, List.filter_cons]
  by_cases hx : x.step.launches? = some c <;> simp [hx, launchesOn]

/-- Transfers stay counted. -/
theorem Life.counted {t t' : Tile} {taken : List Taken} (h : Life t taken t') (ht : t.Counted) :
    t'.Counted := by
  induction h with
  | rest t => exact ht
  | step h _ ih =>
    obtain ⟨fired, hcounts⟩ := h.exists_counts
    exact ih (hcounts.counted ht)

namespace Chronicle

variable {log : List Noted} {t t' : Tile}

/-- **The counts of a channel are its launches, and what has fired of what was scheduled.** -/
theorem exists_fired (h : Chronicle t log t') :
    ∃ fired : Schedule, (t.schedule ++ scheduledIn log).Perm (fired ++ t'.schedule) ∧
      (∀ e ∈ fired, e.due ≤ t'.now) ∧ t.now ≤ t'.now ∧ (t.Counted → t'.Counted) ∧
      ∀ c, t'.transfers c =
        { issued := (t.transfers c).issued + (launchesOn log c).length
          done := (t.transfers c).done + fired.retirements c } := by
  induction h with
  | rest t => exact ⟨[], .of_eq (List.append_nil _), nofun, Nat.le_refl _, id, fun c ↦ rfl⟩
  | @step x log t' h hrest ih =>
    obtain ⟨fired, hcounts⟩ := h.takes.exists_counts
    obtain ⟨fired', hperm', hdue', hnow', hcounted', htransfers'⟩ := ih
    refine ⟨fired ++ fired', ?_, ?_, Nat.le_trans hcounts.now_le hnow',
      fun hcounted ↦ hcounted' (hcounts.counted hcounted), fun c ↦ ?_⟩
    · have hfirst := hcounts.perm.append_right (scheduledIn log)
      rw [List.append_assoc, List.append_assoc] at hfirst
      rw [List.append_assoc]
      exact hfirst.trans (hperm'.append_left fired)
    · intro e he
      rcases List.mem_append.1 he with he | he
      · exact Nat.le_trans (hcounts.due e he) hnow'
      · exact hdue' e he
    · rw [htransfers', hcounts.transfers, launchesOn_cons, Schedule.retirements_append,
        Transfers.mk.injEq]
      dsimp only
      refine ⟨?_, by omega⟩
      split
      · rw [List.length_cons]
        omega
      · omega

/-- **Launches on a channel are numbered one after the other.** -/
theorem number_of_getElem? (h : Chronicle t log t') {c : Channel} {k : Nat} {a : Answer}
    (ha : (launchesOn log c)[k]? = some a) :
    (t.transfers c).issued + (k + 1) < counterLimit ∧
      a = .ofTransfer ⟨UInt32.ofNat ((t.transfers c).issued + (k + 1))⟩ := by
  induction h generalizing k with
  | rest t => exact nomatch ha
  | @step x log t' h hrest ih =>
    obtain ⟨fired, hcounts⟩ := h.takes.exists_counts
    have hissued := congrArg Transfers.issued (hcounts.transfers c)
    rw [launchesOn_cons] at ha
    by_cases hx : x.step.launches? = some c
    · rw [if_pos hx] at ha hissued
      cases k with
      | zero =>
        obtain rfl : x.answer = a := Option.some.inj ha
        exact h.answer_eq hx
      | succ k =>
        have key := ih (k := k) ha
        rw [hissued, Nat.add_assoc, Nat.add_comm 1] at key
        exact key
    · rw [if_neg hx] at ha hissued
      have key := ih ha
      rw [hissued] at key
      exact key

theorem yields_of_mem (h : Chronicle t log t') {x : Noted} (hx : x ∈ log) :
    x.step.Yields x.before x.answer x.after := by
  induction h with
  | rest t => exact absurd hx List.not_mem_nil
  | step h _ ih =>
    rcases List.mem_cons.1 hx with rfl | hx
    · exact h
    · exact ih hx

/-- **The history of every channel of a tile.**  Steps of any kind are taken, from the tile on to
which nothing has happened.

The launches on a channel were answered with 1, 2, 3 and so on.  What retired last is the number of
its retirements that have fired of all that was scheduled, which is no more than the number of its
launches; and the channel is busy if it is less.  No step has added to the launches of any channel
but its own, or to the retirements of any channel but what fired for it. -/
theorem numbering (h : Chronicle .initial log t) :
    (∀ c k a, (launchesOn log c)[k]? = some a →
      ∃ id : TransferId, a = .ofTransfer id ∧ id.number.toNat = k + 1) ∧
    (∃ fired : Schedule, (scheduledIn log).Perm (fired ++ t.schedule) ∧
      (∀ e ∈ fired, e.due ≤ t.now) ∧
      ∀ c, fired.retirements c ≤ (launchesOn log c).length ∧
        t.transfers c = { issued := (launchesOn log c).length, done := fired.retirements c } ∧
        ∀ p, Tile.IsHart p → ∀ v n,
          (∃ id : TransferId, id.number.toNat = fired.retirements c ∧
            (p.run ((Dma.lastDone c).program v n) t).outcome = .returned (id, n) t) ∧
          (p.run ((Dma.isBusy c).program v n) t).outcome =
            .returned (decide (fired.retirements c < (launchesOn log c).length), n) t) ∧
    ∀ x ∈ log, ∃ fired : Schedule,
      (x.before.schedule ++ x.step.schedules x.before).Perm (fired ++ x.after.schedule) ∧
      (∀ e ∈ fired, e.due ≤ x.after.now) ∧
      ∀ c, x.after.transfers c =
        { issued := (x.before.transfers c).issued + if x.step.launches? = some c then 1 else 0
          done := (x.before.transfers c).done + fired.retirements c } := by
  refine ⟨fun c k a ha ↦ ?_, ?_, fun x hx ↦ ?_⟩
  · obtain ⟨hlt, rfl⟩ := h.number_of_getElem? ha
    have hnone : (Tile.initial.transfers c).issued + (k + 1) = k + 1 := Nat.zero_add _
    rw [hnone] at hlt ⊢
    exact ⟨_, rfl, UInt32.toNat_ofNat_of_lt hlt⟩
  · obtain ⟨fired, hperm, hdue, -, hcounted, htransfers⟩ := h.exists_fired
    refine ⟨fired, hperm, hdue, fun c ↦ ?_⟩
    have hcounts : t.transfers c =
        { issued := (launchesOn log c).length, done := fired.retirements c } := by
      rw [htransfers, Transfers.mk.injEq]
      exact ⟨Nat.zero_add _, Nat.zero_add _⟩
    have hcounted : (t.transfers c).Counted :=
      hcounted Tile.counted_initial c
    have hle := hcounted.done_le
    have hnumber := hcounted.number_lastId
    rw [hcounts] at hle hnumber
    refine ⟨hle, hcounts, fun p hp v n ↦ ⟨⟨_, hnumber, ?_⟩, ?_⟩⟩
    · rw [← hcounts]
      exact Dma.returns_lastDone hp c t
    · have hbusy := Dma.returns_isBusy (v := v) (n := n) hp c t
      rw [hcounts] at hbusy
      exact hbusy
  · obtain ⟨fired, hcounts⟩ := (h.yields_of_mem hx).takes.exists_counts
    exact ⟨fired, hcounts.perm, hcounts.due, hcounts.transfers⟩

/-- Two transfers of one channel and one of another, of which the first retires during a delay. -/
def interleaved : List TileStep :=
  [.command (.launch .l2ToL1 0), .retireAfter .l2ToL1 0 5, .command (.launch .l1ToL2 3),
    .command (.launch .l2ToL1 0), .command (.spin 7)]

/-- The second launch on the first channel has the number 2, and the first has retired. -/
theorem numbering_interleaved :
    ∃ log t, log.map (·.step) = interleaved ∧ Chronicle .initial log t ∧
      (∃ id : TransferId, (launchesOn log (.first .l2ToL1))[1]? = some (.ofTransfer id) ∧
        id.number.toNat = 2) ∧
      ∃ id : TransferId, id.number.toNat = 1 ∧
        (Tile.platform.run ((Dma.lastDone (.first .l2ToL1)).program none 0) t).outcome =
          .returned (id, 0) t := by
  obtain ⟨rows, t, hplay, hnow⟩ : ∃ rows t,
      play (TileStep.run Tile.platform none) interleaved .initial = ⟨rows, .finished t⟩ ∧
      t.transfers (.first .l2ToL1) = ⟨2, 1⟩ := ⟨_, _, rfl, rfl⟩
  obtain ⟨log, hsteps, -, hlog⟩ := of_play Tile.isHart_platform hplay
  obtain ⟨hnumbers, ⟨fired, -, -, hchannels⟩, -⟩ := numbering hlog
  obtain ⟨-, hcounts, hqueries⟩ := hchannels (.first .l2ToL1)
  obtain ⟨hissued, hdone⟩ := Transfers.mk.inj (hcounts.symm.trans hnow)
  obtain ⟨⟨last, hlast, hrun⟩, -⟩ := hqueries _ Tile.isHart_platform none 0
  obtain ⟨a, ha⟩ : ∃ a, (launchesOn log (.first .l2ToL1))[1]? = some a :=
    ⟨_, List.getElem?_eq_getElem (by omega)⟩
  obtain ⟨id, rfl, hid⟩ := hnumbers _ _ _ ha
  exact ⟨log, t, hsteps, hlog, ⟨id, ha, hid⟩, last, hlast.trans hdone, hrun⟩

end Chronicle

end TileEvents
