import TileEvents.Proofs.Latch
import TileEvents.Tile.Hardware

/-!
# Every event is delivered once

A session is a number of waits, one after the other, on a tile whose devices may raise any lines
between any two accesses: while a wait looks, after it has looked and before it takes down what it
saw, or while it sleeps.  Where the edges land is a parameter, a mask for every step.

`ExactlyOnce` is what a session can rely on then, and it always can.  A wait takes down just what it
answers with; what it takes down it has found up right before; and whatever else is up stays up.
The driver's half of this is in what waits consume, the hardware's half is that the buffer latches.
-/

set_option autoImplicit false

namespace TileEvents

/-- A tile among devices that may raise lines at any time. -/
structure Exposed where
  /-- The accesses and calls of the hart so far. -/
  steps : Nat
  tile : Tile

namespace Exposed

variable {edges : Nat → EventMask}

/-- The tile when the edges of this step have landed.  There is always room to note what is taken
down. -/
def struck (edges : Nat → EventMask) (s : Exposed) : Tile :=
  { s.tile with buffer := s.tile.buffer ∪ edges s.steps, clears := [] }

/-- The state with the tile one step later. -/
def next (s : Exposed) (t : Tile) : Exposed := ⟨s.steps + 1, t⟩

/-- Before each access and each call of the hart, the edges of that step land. -/
def platform (edges : Nat → EventMask) : Platform Exposed where
  read w o s := (Tile.stillPlatform.read w o (s.struck edges)).map fun r ↦ (r.1, s.next r.2)
  write w o value s := (Tile.stillPlatform.write w o value (s.struck edges)).map s.next
  spin cycles s := (Tile.stillPlatform.spin cycles (s.struck edges)).map s.next
  suspend s := (Tile.stillPlatform.suspend (s.struck edges)).map s.next

/-- The lines on which an edge lands at a moment.  A record is no step. -/
def arrivals (edges : Nat → EventMask) (m : Moment Exposed) : EventMask :=
  if m.before.steps < m.after.steps then edges m.before.steps else ∅

theorem arrivals_of_next {m : Moment Exposed} {t : Tile} (h : m.after = m.before.next t) :
    arrivals edges m = edges m.before.steps := by
  rw [arrivals, if_pos (by rw [h]; exact Nat.lt_succ_self _)]

/-- **The buffer of an exposed tile latches.** -/
theorem latches {s s' : Exposed} {ms : List (Moment Exposed)}
    (h : (platform edges).Walk s ms s') {m : Moment Exposed} (hm : m ∈ ms)
    (hwait : m.event.OfWait) : Latches (·.tile.buffer) (arrivals edges) m := by
  have key : ∀ (a : Action) (r r' : a.Reply) (t : Tile), m.event = .ofReply a r →
      (platform edges).answer a m.before = .ok (r', m.before.next t) →
      t.buffer = (m.before.tile.buffer ∪ edges m.before.steps) \ m.event.clears →
      Latches (·.tile.buffer) (arrivals edges) m := by
    intro a r r' t hevent hanswer hbuffer
    rw [h.answer_of_event hm hevent] at hanswer
    obtain ⟨-, hafter⟩ := Prod.mk.inj (Except.ok.inj hanswer)
    rw [Latches, arrivals_of_next hafter, hafter]
    exact hbuffer
  obtain ⟨before, e, after⟩ := m
  cases hwait with
  | look up =>
    exact key (.read .eventUnit _) up.bits _ _ rfl rfl (EventMask.sdiff_empty _).symm
  | takeDown m => exact key (.write .eventUnit _ m.bits) () _ _ rfl rfl rfl
  | waking m =>
    exact key (.read .eventUnit _) m.bits _ _ rfl rfl (EventMask.sdiff_empty _).symm
  | wake m =>
    exact key (.write .eventUnit _ m.bits) () _ _ rfl rfl (EventMask.sdiff_empty _).symm
  | spin cycles => exact key (.spin cycles) () _ _ rfl rfl (EventMask.sdiff_empty _).symm
  | suspend => exact key .suspend () _ _ rfl rfl (EventMask.sdiff_empty _).symm
  | report s text =>
    have answer := h.answer_of_event hm (a := .report s text) (r := ()) rfl
    obtain rfl : before = after := (Prod.mk.inj (Except.ok.inj answer)).2
    have harrivals : arrivals edges ⟨before, .report s text, before⟩ = ∅ :=
      if_neg (Nat.lt_irrefl _)
    rw [Latches, harrivals, EventMask.union_empty]
    exact (EventMask.sdiff_empty _).symm

/-- A look at an exposed tile finds reported lines that are up. -/
theorem of_look {s s' : Exposed} {ms : List (Moment Exposed)}
    (h : (platform edges).Walk s ms s') {m : Moment Exposed} (hm : m ∈ ms) {up : EventMask}
    (he : m.event = .look up) : up = m.after.tile.reported := by
  have answer := h.answer_of_event hm (a := .read .eventUnit _) (r := up.bits) he
  obtain ⟨hup, hafter⟩ := Prod.mk.inj (Except.ok.inj answer)
  rw [← hafter]
  exact congrArg EventMask.mk hup.symm

end Exposed

/-! ## Calls and sessions -/

open EventUnit (Consumes Looked told)

/-- A call of one of the waits that answer with what they take down. -/
inductive Call
  | take (m : EventMask)
  | poll (m : EventMask) (budget : Budget)
  | suspend (m : EventMask)
  | wait (m : EventMask) (mode : WaitMode) (budget : Budget)
  | waitAnyOf (m : EventMask) (mode : WaitMode) (budget : Budget)
  | waitAny (plan : WaitPlan)
  | waitDevice (d : Device) (mode : WaitMode)
  | waitAll (plan : WaitPlan) (h : plan.mode = .polling)

namespace Call

def driver : Call → Driver (Except WaitError EventMask)
  | take m => do return .ok (← EventUnit.take m)
  | poll m budget => do return .ok (← EventUnit.poll m budget)
  | suspend m => do return .ok (← EventUnit.suspend m)
  | wait m mode budget => do return .ok (← EventUnit.wait m mode budget)
  | waitAnyOf m mode budget => EventUnit.waitAnyOf m mode budget
  | waitAny plan => EventUnit.waitAny plan
  | waitDevice d mode => EventUnit.waitDevice d mode
  | waitAll plan _ => EventUnit.waitAll plan

/-- The lines are those of the answer.  A wait for all devices whose time runs out tells of none,
and then they are some of the required lines but not all. -/
def Settles (m : EventMask) : Call → Except WaitError EventMask → Prop
  | waitAll plan _, .error .timeout => m ⊆ plan.required ∧ m ≠ plan.required
  | _, answer => m = told answer

/-- **Every call consumes what it answers with.** -/
theorem consumes {c : Call} {v : Verbosity} {n n' : Nat} {es : List Event}
    {answer : Except WaitError EventMask} (h : c.driver.Does v n es answer n') :
    ∃ m, Consumes es m ∧ c.Settles m answer := by
  cases c with
  | take m =>
    rw [driver, Driver.does_bind_pure_iff] at h
    obtain ⟨seen, rfl, h⟩ := h
    exact ⟨seen, (EventUnit.consumes_take h).1, rfl⟩
  | poll m budget =>
    rw [driver, Driver.does_bind_pure_iff] at h
    obtain ⟨seen, rfl, h⟩ := h
    exact ⟨seen, (EventUnit.consumes_poll h).1, rfl⟩
  | suspend m =>
    rw [driver, Driver.does_bind_pure_iff] at h
    obtain ⟨seen, rfl, h⟩ := h
    exact ⟨seen, (EventUnit.consumes_suspend h).1, rfl⟩
  | wait m mode budget =>
    rw [driver, Driver.does_bind_pure_iff] at h
    obtain ⟨seen, rfl, h⟩ := h
    exact ⟨seen, (EventUnit.consumes_wait h).1, rfl⟩
  | waitAnyOf m mode budget => exact ⟨told answer, (EventUnit.consumes_waitAnyOf h).1, rfl⟩
  | waitAny plan => exact ⟨told answer, (EventUnit.consumes_waitAnyOf h).1, rfl⟩
  | waitDevice d mode => exact ⟨told answer, (EventUnit.consumes_waitAnyOf h).1, rfl⟩
  | waitAll plan hmode =>
    obtain ⟨m, hc, hm, hanswer⟩ := EventUnit.consumes_waitAll hmode h
    rcases hanswer with ⟨rfl, -⟩ | ⟨rfl, hne⟩ | ⟨rfl, rfl⟩
    · exact ⟨m, hc, rfl⟩
    · exact ⟨m, hc, hm, hne⟩
    · exact ⟨∅, hc, rfl⟩

end Call

/-- A call that came to its end, with what happened in it. -/
structure Served where
  call : Call
  answer : Except WaitError EventMask
  start : Exposed
  moments : List (Moment Exposed)
  stop : Exposed

/-- Calls that came to their ends one after the other on an exposed tile. -/
inductive Session (edges : Nat → EventMask) : Exposed → List Served → Exposed → Prop
  | rest (s : Exposed) : Session edges s [] s
  | serve {c : Served} {served : List Served} {s : Exposed}
      (h : (Exposed.platform edges).Completes c.call.driver c.start c.moments c.answer c.stop)
      (hrest : Session edges c.stop served s) : Session edges c.start (c :: served) s

/-- All that happened in some calls. -/
def history (served : List Served) : List (Moment Exposed) := served.flatMap Served.moments

/-- **Events are delivered exactly once.** -/
structure ExactlyOnce (edges : Nat → EventMask) (served : List Served) : Prop where
  /-- A call takes the lines it answers with down once each, and no others. -/
  once : ∀ c ∈ served, ∃ m, c.call.Settles m c.answer ∧
    ∀ b, c.moments.countP (fun e ↦ decide (b ∈ e.event.clears)) = if b ∈ m then 1 else 0
  /-- A line that is taken down was up and reported at the look right before. -/
  seen : ∀ c ∈ served, ∀ earlier m later b, c.moments = earlier ++ m :: later →
    b ∈ m.event.clears →
    ∃ before l up, earlier = before ++ [l] ∧ l.event = .look up ∧ b ∈ l.after.tile.reported
  /-- Between two times that a line is taken down, in one call or in two, an edge lands on it. -/
  edge : ∀ earlier m between m' later b,
    history served = earlier ++ m :: between ++ m' :: later →
    b ∈ m.event.clears → b ∈ m'.event.clears → ∃ a ∈ between, b ∈ Exposed.arrivals edges a
  /-- When a call returns, the lines are up that were up before or on which an edge landed, and
  that the call did not take down afterwards. -/
  kept : ∀ c ∈ served, ∀ b, b ∈ c.stop.tile.buffer ↔
    (b ∈ c.start.tile.buffer ∧ ∀ m ∈ c.moments, ¬ b ∈ m.event.clears) ∨
      ∃ earlier m later, c.moments = earlier ++ m :: later ∧ b ∈ Exposed.arrivals edges m ∧
        ∀ m' ∈ m :: later, ¬ b ∈ m'.event.clears

namespace Session

variable {edges : Nat → EventMask} {s s' : Exposed} {served : List Served}

theorem completes (h : Session edges s served s') {c : Served} (hc : c ∈ served) :
    (Exposed.platform edges).Completes c.call.driver c.start c.moments c.answer c.stop := by
  induction h with
  | rest s => exact absurd hc List.not_mem_nil
  | serve h _ ih =>
    rcases List.mem_cons.1 hc with rfl | hc
    · exact h
    · exact ih hc

theorem consumes (h : Session edges s served s') {c : Served} (hc : c ∈ served) :
    ∃ m, Consumes (c.moments.map Moment.event) m ∧ c.call.Settles m c.answer := by
  obtain ⟨v, n, n', hdoes⟩ := (h.completes hc).does
  exact Call.consumes hdoes

/-- A session is one walk. -/
theorem walk (h : Session edges s served s') :
    (Exposed.platform edges).Walk s (history served) s' := by
  induction h with
  | rest s => exact .rest s
  | serve h _ ih => exact Platform.Walk.append_iff.2 ⟨_, h.walk, ih⟩

theorem ofWait (h : Session edges s served s') {m : Moment Exposed} (hm : m ∈ history served) :
    m.event.OfWait := by
  obtain ⟨c, hc, hm⟩ := List.mem_flatMap.1 hm
  obtain ⟨lines, hconsumes, -⟩ := h.consumes hc
  exact hconsumes.ofWait m.event (List.mem_map_of_mem hm)

theorem looked (h : Session edges s served s') : Looked ((history served).map Moment.event) := by
  induction h with
  | rest s =>
    intro before e after b he
    simp [history] at he
  | serve h hrest ih =>
    obtain ⟨v, n, n', hdoes⟩ := h.does
    obtain ⟨m, hconsumes, -⟩ := Call.consumes hdoes
    rw [history, List.flatMap_cons, List.map_append]
    exact hconsumes.looked.append ih

/-- **Whatever edges land when, every session delivers every event once.** -/
theorem exactlyOnce (h : Session edges s served s') : ExactlyOnce edges served where
  once c hc := by
    obtain ⟨m, hconsumes, hsettles⟩ := h.consumes hc
    refine ⟨m, hsettles, fun b ↦ ?_⟩
    rw [← hconsumes.once b, List.countP_map]
    rfl
  seen c hc earlier m later b hms hb := by
    obtain ⟨lines, hconsumes, -⟩ := h.consumes hc
    obtain ⟨before, l, up, rfl, hlook, hup⟩ := exists_look hconsumes.looked hms hb
    have hl : l ∈ c.moments := by simp [hms]
    rw [Exposed.of_look (h.completes hc).walk hl hlook] at hup
    exact ⟨before, l, up, rfl, hlook, hup⟩
  edge earlier m between m' later b hms hb hb' := by
    have hwalk := h.walk
    have hlooked := h.looked
    have hlatches : ∀ m₁ ∈ history served,
        Latches (·.tile.buffer) (Exposed.arrivals edges) m₁ :=
      fun m₁ hm₁ ↦ Exposed.latches hwalk hm₁ (h.ofWait hm₁)
    have hup : ∀ m₁ ∈ history served, ∀ up, m₁.event = .look up →
        ∀ i, i ∈ up → i ∈ m₁.after.tile.buffer := by
      intro m₁ hm₁ up hlook i hi
      rw [Exposed.of_look hwalk hm₁ hlook] at hi
      exact (EventMask.mem_inter.1 hi).1
    rw [hms] at hwalk hlooked hlatches hup
    exact exists_arrival_between hwalk hlatches hup hlooked hb hb'
  kept c hc b := by
    have hlatches : ∀ m ∈ c.moments, Latches (·.tile.buffer) (Exposed.arrivals edges) m :=
      fun m hm ↦ Exposed.latches (h.completes hc).walk hm
        (h.ofWait (List.mem_flatMap.2 ⟨c, hc, hm⟩))
    exact mem_of_walk (h.completes hc).walk hlatches

end Session

/-- The accelerator is done before the steps 0, 1 and 4. -/
def thriceDone (step : Nat) : EventMask := if step ∈ [0, 1, 4] then Line.accDone.mask else ∅

/-- The line is up already when it comes up the second time, just before it is taken down, and so
it is delivered twice. -/
theorem exactlyOnce_thriceDone :
    ∃ served tile s', tile.mask = Line.accDone.mask ∧ Session thriceDone ⟨0, tile⟩ served s' ∧
      served.map Served.call = [.take Line.accDone.mask, .waitDevice .accelerator .suspend] ∧
      served.map Served.answer = [.ok Line.accDone.mask, .ok Line.accDone.mask] ∧
      ExactlyOnce thriceDone served := by
  obtain ⟨ms₁, -, h₁⟩ := Platform.completes_of_run (p := Exposed.platform thriceDone)
    (x := (Call.take Line.accDone.mask).driver) (v := none) (n := 1)
    (s := ⟨0, { Tile.initial with mask := Line.accDone.mask }⟩) rfl
  obtain ⟨ms₂, -, h₂⟩ := Platform.completes_of_run (p := Exposed.platform thriceDone)
    (x := (Call.waitDevice .accelerator .suspend).driver) (v := none) (n := 1)
    (s := ⟨2, { Tile.initial with mask := Line.accDone.mask, clears := [Line.accDone.mask] }⟩) rfl
  have h := Session.serve (c := ⟨_, _, _, ms₁, _⟩) h₁
    (.serve (c := ⟨_, _, _, ms₂, _⟩) h₂ (.rest _))
  exact ⟨_, _, _, rfl, h, rfl, rfl, h.exactlyOnce⟩

end TileEvents
