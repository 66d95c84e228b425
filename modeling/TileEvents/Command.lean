import TileEvents.Dma.Transfer
import TileEvents.EventUnit.Single
import TileEvents.EventUnit.WaitAll

/-!
# The operations as data

`Command` is everything that can be asked of the hart, the event unit and the data mover;
`Command.driver` does it.  A channel is named by a front-end and an index, and an index that is no
channel's is answered with an error before anything else happens.
-/

set_option autoImplicit false

namespace TileEvents

/-- Something that can be asked of the hart, the event unit or the data mover. -/
inductive Command
  -- the hart
  | spin (cycles : UInt32)
  | suspendHart
  -- the event unit's masks and buffer
  | init
  | enable (m : EventMask)
  | disable (m : EventMask)
  | enableIrq (m : EventMask)
  | disableIrq (m : EventMask)
  | clear (m : EventMask)
  | observe (m : EventMask)
  | take (m : EventMask)
  | enabled
  | irqEnabled
  | pending
  | pendingMasked
  | pendingIrqMasked
  -- its clock, software events and own sleep
  | clockEnabled
  | enableSwTargets (cores : UInt32)
  | disableSwTargets (cores : UInt32)
  | swTargets
  | triggerSwEvent (id : Nat)
  | triggerSwEventWait (id : Nat)
  | sleep
  | sleepClear
  -- waits for lines
  | poll (m : EventMask) (budget : Budget)
  | suspend (m : EventMask)
  | wait (m : EventMask) (mode : WaitMode) (budget : Budget)
  | waitAnyOf (m : EventMask) (mode : WaitMode) (budget : Budget)
  -- waits for several devices
  | arm (plan : WaitPlan)
  | waitAny (plan : WaitPlan)
  | waitAll (plan : WaitPlan)
  -- one device
  | initDevice (d : Device) (irq : Bool)
  | waitDevice (d : Device) (mode : WaitMode)
  | isDone (d : Device)
  | isBusy (d : Device)
  | hasError (d : Device)
  | dmaAnyError
  -- the data mover
  | launch (d : Direction) (index : Nat)
  | channelBusy (d : Direction) (index : Nat)
  | lastDone (d : Direction) (index : Nat)
  | waitFor (d : Direction) (index : Nat) (id : TransferId) (budget : Budget)
  | isRetired (id : TransferId)
  | anyBusy
  | waitRetired (id : TransferId) (budget : Budget)
  | barrier (budget : Budget)

/-- What an operation is answered with. -/
inductive Answer
  | ok
  | word (value : UInt32)
  | flag (value : Bool)
  | failed (why : WaitError)
deriving DecidableEq

namespace Answer

def ofMask (m : EventMask) : Answer := word m.bits

def ofTransfer (t : TransferId) : Answer := word t.number

def ofUnitResult : Except WaitError Unit → Answer
  | .ok () => ok
  | .error e => failed e

def ofMaskResult : Except WaitError EventMask → Answer
  | .ok m => ofMask m
  | .error e => failed e

end Answer

namespace Command

/-- An operation without a result. -/
def silently (x : Driver Unit) : Driver Answer := do
  x
  return .ok

/-- An operation on the channel with an index, if there is one. -/
def onChannel (d : Direction) (index : Nat) (x : Channel → Driver Answer) : Driver Answer :=
  match Channel.ofIndex d index with
  | .ok c => x c
  | .error e => return .failed e

/-- Does what is asked. -/
def driver : Command → Driver Answer
  | spin cycles => silently (Driver.spin cycles)
  | suspendHart => silently Driver.suspend
  | init => silently EventUnit.init
  | enable m => silently (EventUnit.enable m)
  | disable m => silently (EventUnit.disable m)
  | enableIrq m => silently (EventUnit.enableIrq m)
  | disableIrq m => silently (EventUnit.disableIrq m)
  | clear m => silently (EventUnit.clear m)
  | observe m => .ofMask <$> EventUnit.observe m
  | take m => .ofMask <$> EventUnit.take m
  | enabled => .ofMask <$> EventUnit.enabled
  | irqEnabled => .ofMask <$> EventUnit.irqEnabled
  | pending => .ofMask <$> EventUnit.pending
  | pendingMasked => .ofMask <$> EventUnit.pendingMasked
  | pendingIrqMasked => .ofMask <$> EventUnit.pendingIrqMasked
  | clockEnabled => .flag <$> EventUnit.clockEnabled
  | enableSwTargets cores => silently (EventUnit.enableSwTargets cores)
  | disableSwTargets cores => silently (EventUnit.disableSwTargets cores)
  | swTargets => .word <$> EventUnit.swTargets
  | triggerSwEvent id => .ofUnitResult <$> EventUnit.triggerSwEvent id
  | triggerSwEventWait id => .ofMaskResult <$> EventUnit.triggerSwEventWait id
  | sleep => .ofMask <$> EventUnit.sleep
  | sleepClear => .ofMask <$> EventUnit.sleepClear
  | poll m budget => .ofMask <$> EventUnit.poll m budget
  | suspend m => .ofMask <$> EventUnit.suspend m
  | wait m mode budget => .ofMask <$> EventUnit.wait m mode budget
  | waitAnyOf m mode budget => .ofMaskResult <$> EventUnit.waitAnyOf m mode budget
  | arm plan => silently (EventUnit.arm plan)
  | waitAny plan => .ofMaskResult <$> EventUnit.waitAny plan
  | waitAll plan => .ofMaskResult <$> EventUnit.waitAll plan
  | initDevice d irq => silently (EventUnit.initDevice d irq)
  | waitDevice d mode => .ofMaskResult <$> EventUnit.waitDevice d mode
  | isDone d => .flag <$> EventUnit.isDone d
  | isBusy d => .flag <$> EventUnit.isBusy d
  | hasError d => .flag <$> EventUnit.hasError d
  | dmaAnyError => .flag <$> EventUnit.dmaAnyError
  | launch d index => onChannel d index fun c ↦ .ofTransfer <$> Dma.launch c
  | channelBusy d index => onChannel d index fun c ↦ .flag <$> Dma.isBusy c
  | lastDone d index => onChannel d index fun c ↦ .ofTransfer <$> Dma.lastDone c
  | waitFor d index id budget =>
    onChannel d index fun c ↦ .ofUnitResult <$> Dma.waitFor c id budget
  | isRetired id => .flag <$> Dma.isRetired id
  | anyBusy => .flag <$> Dma.anyBusy
  | waitRetired id budget => .ofUnitResult <$> Dma.waitRetired id budget
  | barrier budget => .ofUnitResult <$> Dma.barrier budget

end Command
end TileEvents
