import TileEvents.Platform.Trace
import TileEvents.Proofs.Operations
import TileEvents.Proofs.Reaches

/-!
# Paying for calls of the hart

A driver may call the hart so many times, and each delay and each sleep costs a call.  A program
`Pays` if it keeps these accounts and has no other reason to stop: it ends well with what is left of
the calls, or it gives up when none is left, or the hardware breaks off.

So a program that pays has at any point of a run as many calls left as were not made by then
(`Platform.Reaches.pays`).  A wait that sleeps pays (`pays_waitAll`); one that polls for all devices
need not, as its count of rounds may break off by itself.
-/

set_option autoImplicit false

namespace TileEvents

/-- How many calls of the hart an action costs. -/
def Action.cost : Action → Nat
  | spin _ => 1
  | suspend => 1
  | _ => 0

/-- It is a call of the hart. -/
def Event.isCall (e : Event) : Bool := e.isSpin || e.isSuspend

/-- How often the hart was called. -/
def calls (es : List Event) : Nat := es.countP Event.isCall

theorem calls_cons (action : Action) (r : action.Reply) (es : List Event) :
    calls (.ofReply action r :: es) = calls es + action.cost := by
  rw [calls, calls, List.countP_cons]
  cases action <;> rfl

namespace Program

variable {α β : Type}

/-- Whatever the hardware replies, the program, with so many calls of the hart left, pays for each
of them, and only the hardware or the want of calls keeps it from its end. -/
def Pays : Nat → Program (α × Nat) → Prop
  | n, done r => r.2 = n
  | _, fault _ => False
  | n, exhausted => n = 0
  | n, step action next => ∃ k, n = k + action.cost ∧ ∀ r, Pays k (next r)

/-- **One program after the other pays if each does.**  The second starts with a value that the
first can end with and the calls that this has left. -/
theorem Pays.bind {P : α × Nat → Prop} {k : α × Nat → Program (β × Nat)}
    {p : Program (α × Nat)} {n : Nat} (hp : p.Pays n) (hends : p.Ends P)
    (hk : ∀ r, P r → (k r).Pays r.2) : (p.bind k).Pays n := by
  induction p generalizing n with
  | done r =>
    obtain rfl : r.2 = n := hp
    exact hk r hends
  | fault why => exact hp.elim
  | exhausted => exact hp
  | step action next ih =>
    obtain ⟨left, rfl, hnext⟩ := hp
    exact ⟨left, rfl, fun r ↦ ih r (hnext r) (hends r)⟩

end Program

/-- **The calls that were made and those that are left are the calls there were.** -/
theorem Platform.Reaches.pays {σ α : Type} {p : Platform σ} {program rest : Program (α × Nat)}
    {s s' : σ} {past : List (Moment σ)} (h : p.Reaches program s past rest s') {n : Nat}
    (hpays : program.Pays n) : ∃ k, n = k + calls (past.map Moment.event) ∧ rest.Pays k := by
  induction h generalizing n with
  | here program s => exact ⟨n, rfl, hpays⟩
  | @step action next reply s s₁ s' past rest h hrest ih =>
    obtain ⟨left, rfl, hnext⟩ := hpays
    obtain ⟨k, rfl, hrest⟩ := ih (hnext reply)
    refine ⟨k, ?_, hrest⟩
    rw [List.map_cons, calls_cons, Nat.add_assoc]

namespace Driver

variable {α β ι : Type} {v : Verbosity} {n : Nat}

/-- The driver pays for its calls of the hart. -/
def Pays (x : Driver α) : Prop := ∀ v n, (x.program v n).Pays n

theorem pays_pure (a : α) : (pure a : Driver α).Pays := fun _ _ ↦ rfl

theorem Pays.bind {x : Driver α} {f : α → Driver β} (hx : x.Pays) (hf : ∀ a, (f a).Pays) :
    (x >>= f).Pays :=
  fun v n ↦ Program.Pays.bind (hx v n) (Program.ends_true _) fun r _ ↦ hf r.1 v r.2

theorem pays_read (w : Window) (offset : Nat) : (read w offset).Pays :=
  fun _ n ↦ ⟨n, rfl, fun _ ↦ rfl⟩

theorem pays_write (w : Window) (offset : Nat) (value : UInt32) : (write w offset value).Pays :=
  fun _ n ↦ ⟨n, rfl, fun _ ↦ rfl⟩

theorem pays_suspend : suspend.Pays := by
  intro v n
  cases n with
  | zero => rfl
  | succ n => exact ⟨n, rfl, fun _ ↦ rfl⟩

theorem pays_report (s : Severity) (text : Unit → String) : (report s text).Pays := by
  intro v n
  rw [program, report]
  split
  · exact ⟨n, rfl, fun _ ↦ rfl⟩
  · rfl

/-- **A loop pays if its turns do.** -/
theorem pays_loop {μ : ι → Nat} {body : ι → Driver (Turn ι α)} (hd : Descends μ body)
    (h : ∀ i, (body i).Pays) (i : ι) : (loop μ body i).Pays := by
  intro v n
  induction hk : n + μ i using Nat.strongRecOn generalizing i n with
  | _ k ih =>
    rw [loop_eq hd, bind_program]
    refine Program.Pays.bind (h i v n) (hd i v n) fun r hr ↦ ?_
    obtain ⟨turn, n'⟩ := r
    cases turn with
    | again i' => exact ih (n' + μ i') (hk ▸ hr i' rfl) i' n' rfl
    | stop a => rfl

end Driver

namespace EventUnit

theorem pays_readLines (r : Register) : (readLines r).Pays :=
  (Driver.pays_read _ _).bind fun _ ↦ Driver.pays_pure _

theorem pays_take (m : EventMask) : (take m).Pays := by
  refine ((pays_readLines .bufferMasked).bind fun _ ↦ Driver.pays_pure _).bind fun seen ↦ ?_
  split
  · exact Driver.pays_pure seen
  · exact (Driver.pays_write _ _ _).bind fun _ ↦ Driver.pays_pure seen

theorem pays_sleepOnce (m : EventMask) : (sleepOnce m).Pays :=
  Driver.pays_suspend.bind fun _ ↦ (pays_take m).bind fun _ ↦
    (Driver.pays_report _ _).bind fun _ ↦ Driver.pays_pure _

theorem pays_sleepFor (m : EventMask) : (sleepFor m).Pays := by
  refine (pays_take m).bind fun seen ↦ ?_
  split
  · exact pays_sleepOnce m
  · exact Driver.pays_pure seen

theorem pays_suspend (m : EventMask) : (suspend m).Pays := by
  rw [suspend]
  refine (pays_readLines .irqMask).bind fun waking ↦ ?_
  dsimp only
  split
  · exact (Driver.pays_write _ _ _).bind fun _ ↦ pays_sleepFor m
  · exact pays_sleepFor m

theorem pays_reportRound (r : Round) : (reportRound r).Pays := by
  rw [reportRound]
  split
  · exact Driver.pays_pure _
  · exact Driver.pays_report _ _

theorem pays_suspendRounds (required : EventMask) : (suspendRounds required).Pays := by
  refine Driver.pays_loop (descends_suspendRound required) (fun t ↦ ?_) _
  rw [suspendRound]
  split
  · exact Driver.pays_pure _
  · exact (pays_suspend _).bind fun _ ↦ (pays_reportRound _).bind fun _ ↦ Driver.pays_pure _

/-- **A wait for all devices that sleeps pays**, so nothing but the hardware and the want of calls
keeps it from its end. -/
theorem pays_waitAll {plan : WaitPlan} (hmode : plan.mode = .suspend) : (waitAll plan).Pays := by
  cases hrequired : plan.required.isEmpty with
  | true =>
    rw [waitAll_eq_empty hrequired]
    exact Driver.pays_pure _
  | false =>
    rw [waitAll_eq_asleep hmode hrequired]
    exact (pays_suspendRounds _).bind fun _ ↦ (Driver.pays_write _ _ _).bind fun _ ↦
      (Driver.pays_report _ _).bind fun _ ↦ Driver.pays_pure _

end EventUnit
end TileEvents
