import TileEvents.Command
import TileEvents.Platform.Memory
import TileEvents.Platform.Scripted
import TileEvents.Tile.Hardware

/-!
# Scenarios

A scenario is a list of steps on one hardware, from a first state on.  Most steps are commands to
the drivers; each kind of hardware has a few of its own besides, by which something happens that no
driver does.  Those leave no events.

Every finished step has a `Row`.  A scenario ends with its last step, or early where a step breaks
off or calls the hart more than `callLimit` times.
-/

set_option autoImplicit false

namespace TileEvents

/-- How often one step may call the hart. -/
def callLimit : Nat := 150000

/-- What a finished step was answered, what happened in it, and the state after it. -/
structure Row (σ : Type) where
  answer : Answer
  events : List Event
  state : σ

/-- How a scenario ended. -/
inductive Ending (σ : Type)
  | finished (state : σ)
  | faulted (why : Fault)
  /-- A step would have called the hart once too often. -/
  | stuck

/-- The finished steps of a scenario, and how it ended. -/
structure Played (σ : Type) where
  rows : List (Row σ)
  ending : Ending σ

/-- Takes the steps one after the other. -/
def play {σ ι : Type} (step : ι → σ → Run σ Answer) : List ι → σ → Played σ
  | [], s => ⟨[], .finished s⟩
  | i :: is, s =>
    let run := step i s
    match run.outcome with
    | .returned a s' =>
      let rest := play step is s'
      ⟨⟨a, run.events, s'⟩ :: rest.rows, rest.ending⟩
    | .faulted f => ⟨[], .faulted f⟩
    | .exhausted => ⟨[], .stuck⟩

/-- Carries a command out. -/
def Command.run {σ : Type} (c : Command) (p : Platform σ) (v : Verbosity) (s : σ) : Run σ Answer :=
  p.run (c.driver.toProgram v callLimit) s

/-- A step that no driver takes. -/
def Run.byHand {σ : Type} (result : Except Fault (Answer × σ)) : Run σ Answer :=
  match result with
  | .ok (a, s) => ⟨[], .returned a s⟩
  | .error f => ⟨[], .faulted f⟩

/-! ## On a simulated tile -/

/-- A step on a simulated tile. -/
inductive TileStep
  | command (c : Command)
  /-- Lines go up. -/
  | raise (m : EventMask)
  /-- Lines will go up. -/
  | raiseAfter (m : EventMask) (cycles : Nat)
  /-- A transfer will retire. -/
  | retireAfter (d : Direction) (index : Nat) (cycles : Nat)
  | setClock (on : Bool)
  | readRegister (w : Window) (offset : Nat)
  | writeRegister (w : Window) (offset : Nat) (value : UInt32)

/-- Takes a step on a tile with one of its two harts. -/
def TileStep.run (p : Platform Tile) (v : Verbosity) : TileStep → Tile → Run Tile Answer
  | command c, t => c.run p v t
  | raise m, t => .byHand (.ok (.ok, t.raise m))
  | raiseAfter m cycles, t =>
    .byHand ((t.scheduleAfter (.edge m) cycles).map fun t ↦ (.ok, t))
  | retireAfter d index cycles, t =>
    match Channel.ofIndex d index with
    | .ok c => .byHand ((t.scheduleAfter (.retire c) cycles).map fun t ↦ (.ok, t))
    | .error e => .byHand (.ok (.failed e, t))
  | setClock on, t => .byHand (.ok (.ok, { t with clockOn := on }))
  | readRegister w o, t => .byHand ((t.read w o).map fun r ↦ (.word r.1, r.2))
  | writeRegister w o value, t => .byHand ((t.write w o value).map fun t ↦ (.ok, t))

/-! ## On plain memory -/

/-- A step on plain memory. -/
inductive MemoryStep
  | command (c : Command)
  | readWord (offset : Nat)
  | writeWord (offset : Nat) (value : UInt32)

/-- Takes a step on plain memory. -/
def MemoryStep.run (v : Verbosity) : MemoryStep → Memory → Run Memory Answer
  | command c, m => c.run Memory.platform v m
  | readWord o, m => .byHand ((m.read o).map fun r ↦ (.word r.1, r.2))
  | writeWord o value, m => .byHand ((m.write o value).map fun m ↦ (.ok, m))

end TileEvents
