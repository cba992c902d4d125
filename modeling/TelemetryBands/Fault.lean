import TelemetryBands.Clock.Document
import TelemetryBands.Failure
import TelemetryBands.Json.Variant

/-!
# Faults

What goes wrong while samples are taken in and windows are evaluated is not answered to the caller
but reported on a channel of bounded length. When the channel is full its oldest fault is discarded.
-/

namespace TelemetryBands

/-- Something that went wrong in a topic, with the rule and the end of the window as far as they are
known. -/
structure Fault where
  topic : String
  state : Option UInt32
  windowEnd : Option Millis
  failure : Failure
  deriving DecidableEq, Repr

/-- A fault as a document holds it. -/
def Fault.toJson (f : Fault) : Json :=
  .record
    [("topic", .ofText f.topic),
     ("ruleState", .ofOption .ofWord32 f.state),
     ("windowEnd", .ofOption Millis.toJson f.windowEnd),
     ("code", .ofInt f.failure.code),
     ("kind", .ofText f.failure.name),
     ("message", .ofText f.failure.message)]

/-- The faults that were reported and not yet taken, the oldest first. -/
structure FaultChannel where
  pending : List Fault
  capacity : Nat
  /-- The number of faults ever reported. -/
  total : Nat
  discarded : Nat
  deriving DecidableEq, Repr

namespace FaultChannel

/-- The length of a channel that is not told any. -/
def defaultCapacity : Nat := 256

/-- A channel without faults; it has room for at least one. -/
def new (capacity : Nat) : FaultChannel :=
  ⟨[], max capacity 1, 0, 0⟩

/-- Reports a fault. -/
def report (c : FaultChannel) (f : Fault) : FaultChannel :=
  if c.pending.length < c.capacity then
    { c with pending := c.pending ++ [f], total := c.total + 1 }
  else
    { c with
      pending := c.pending.tail ++ [f]
      total := c.total + 1
      discarded := c.discarded + 1 }

/-- Reports faults in their order. -/
def reportAll (c : FaultChannel) (faults : List Fault) : FaultChannel :=
  faults.foldl report c

/-- Takes all pending faults. -/
def drain (c : FaultChannel) : FaultChannel × List Fault :=
  ({ c with pending := [] }, c.pending)

end FaultChannel

end TelemetryBands
