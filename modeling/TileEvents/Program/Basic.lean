import TileEvents.Fault

/-!
# Programs that drive the hardware

Everything a driver does to its tile goes through two register windows and the hart that runs it.
`Action` lists what it can do, and a `Program` is what it will do: end with a value, break off with
a fault, or take one action and go on depending on the reply.  A program says nothing about what
the hardware replies, so a law about all programs of a kind is a law about every hardware.

Programs are finite.  A wait without a bound is one program for each number of times the hart may
be called, and a program that would need one more call is `exhausted` there; "it never returns" is
said as "it is exhausted whatever that number is".

`bind` runs one program after the other and satisfies the monad laws, `Ends` says what values a
program can end with on some hardware.
-/

set_option autoImplicit false

namespace TileEvents

/-- A block of registers that is mapped together. -/
inductive Window
  | eventUnit
  | dma
deriving DecidableEq

/-- How much a record matters, the most important first. -/
inductive Severity
  | error
  | warn
  | info
  | debug
  | trace
deriving DecidableEq

namespace Severity

def rank : Severity → Nat
  | error => 1
  | warn => 2
  | info => 3
  | debug => 4
  | trace => 5

def label : Severity → String
  | error => "ERROR"
  | warn => "WARN"
  | info => "INFO"
  | debug => "DEBUG"
  | trace => "TRACE"

end Severity

/-- The least important records that are kept, if any are. -/
abbrev Verbosity := Option Severity

/-- Records of this severity are kept. -/
def Verbosity.admits : Verbosity → Severity → Bool
  | none, _ => false
  | some most, s => decide (s.rank ≤ most.rank)

/-- One thing that a driver does. -/
inductive Action
  /-- Read the register at an offset into a window. -/
  | read (window : Window) (offset : Nat)
  /-- Write a word to the register at an offset into a window. -/
  | write (window : Window) (offset : Nat) (value : UInt32)
  /-- Let cycles pass without giving up the hart. -/
  | spin (cycles : UInt32)
  /-- Put the hart to sleep until an event wakes it. -/
  | suspend
  /-- Leave a record for a human reader. -/
  | report (severity : Severity) (text : String)
deriving DecidableEq

/-- What an action is answered with: a read with a word, all else with the end of the action. -/
@[reducible] def Action.Reply : Action → Type
  | read _ _ => UInt32
  | write _ _ _ => Unit
  | spin _ => Unit
  | suspend => Unit
  | report _ _ => Unit

/-- What a driver will do, for every reply of the hardware. -/
inductive Program (α : Type) : Type
  | done (value : α)
  | fault (why : Fault)
  /-- The hart would have to be called more often than is allowed. -/
  | exhausted
  | step (action : Action) (next : action.Reply → Program α)

namespace Program

variable {α β γ : Type}

/-- Runs a program and goes on with its value. -/
def bind : Program α → (α → Program β) → Program β
  | done a, k => k a
  | fault f, _ => fault f
  | exhausted, _ => exhausted
  | step action next, k => step action fun r ↦ (next r).bind k

instance : Monad Program where
  pure := done
  bind := bind

theorem bind_done (p : Program α) : p.bind done = p := by
  induction p with
  | done a => rfl
  | fault f => rfl
  | exhausted => rfl
  | step action next ih => exact congrArg (step action) (funext ih)

theorem bind_assoc (p : Program α) (k : α → Program β) (l : β → Program γ) :
    (p.bind k).bind l = p.bind fun a ↦ (k a).bind l := by
  induction p with
  | done a => rfl
  | fault f => rfl
  | exhausted => rfl
  | step action next ih => exact congrArg (step action) (funext ih)

instance : LawfulMonad Program :=
  LawfulMonad.mk' Program (fun p ↦ bind_done p) (fun _ _ ↦ rfl) (fun p k l ↦ bind_assoc p k l)

/-! ## The values a program can end with -/

/-- Whatever the hardware replies, a value that the program ends with satisfies `P`. -/
def Ends (P : α → Prop) : Program α → Prop
  | done a => P a
  | fault _ => True
  | exhausted => True
  | step _ next => ∀ r, (next r).Ends P

theorem Ends.mono {P Q : α → Prop} (h : ∀ a, P a → Q a) {p : Program α} (hp : p.Ends P) :
    p.Ends Q := by
  induction p with
  | done a => exact h a hp
  | fault f => trivial
  | exhausted => trivial
  | step action next ih => exact fun r ↦ ih r (hp r)

/-- Every program ends with some value or none. -/
theorem ends_true (p : Program α) : p.Ends fun _ ↦ True := by
  induction p with
  | done a => trivial
  | fault f => trivial
  | exhausted => trivial
  | step action next ih => exact ih

theorem ends_bind {P : β → Prop} {k : α → Program β} {p : Program α} :
    (p.bind k).Ends P ↔ p.Ends fun a ↦ (k a).Ends P := by
  induction p with
  | done a => exact Iff.rfl
  | fault f => exact Iff.rfl
  | exhausted => exact Iff.rfl
  | step action next ih => exact forall_congr' ih

/-- Two continuations that agree on the values a program can end with make the same program. -/
theorem bind_congr {P : α → Prop} {k l : α → Program β} {p : Program α} (hp : p.Ends P)
    (h : ∀ a, P a → k a = l a) : p.bind k = p.bind l := by
  induction p with
  | done a => exact h a hp
  | fault f => rfl
  | exhausted => rfl
  | step action next ih => exact congrArg (step action) (funext fun r ↦ ih r (hp r))

end Program
end TileEvents
