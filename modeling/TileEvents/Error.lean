/-!
# What a wait can refuse or report

The causes for which an operation on the event unit or the data mover ends without a result.  Four
of them are refusals of an argument; only `timeout` says something about the hardware.
-/

set_option autoImplicit false

namespace TileEvents

/-- Why an operation ended without a result. -/
inductive WaitError
  /-- The polling budget ran out before everything asked for was seen. -/
  | timeout
  /-- Nothing was asked for. -/
  | emptyMask
  /-- The channel index is not below the number of channels. -/
  | invalidChannel
  /-- The transfer id is 0, which no transfer has. -/
  | invalidTransfer
  /-- The software event id is not below the number of software events. -/
  | invalidSwEvent
deriving DecidableEq

namespace WaitError

def all : List WaitError := [timeout, emptyMask, invalidChannel, invalidTransfer, invalidSwEvent]

def name : WaitError → String
  | timeout => "Timeout"
  | emptyMask => "EmptyMask"
  | invalidChannel => "InvalidChannel"
  | invalidTransfer => "InvalidTransfer"
  | invalidSwEvent => "InvalidSwEvent"

def message : WaitError → String
  | timeout => "timed out waiting for events"
  | emptyMask => "wait requested for an empty event set"
  | invalidChannel => "dma channel index out of range"
  | invalidTransfer => "transfer id 0 is never issued"
  | invalidSwEvent => "software event id out of range"

/-- The error with a given name. -/
def ofName? (name : String) : Option WaitError := all.find? fun e ↦ e.name == name

theorem ofName?_name (e : WaitError) : ofName? e.name = some e := by cases e <;> decide

end WaitError
end TileEvents
