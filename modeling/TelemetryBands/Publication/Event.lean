import TelemetryBands.Clock.Document
import TelemetryBands.Json.Variant

/-!
# Published events

What subscribers are told: the state that a window put a topic into or kept it in, with the number
that decided it.
-/

namespace TelemetryBands

/-- Why an event is published. -/
inductive EventKind where
  /-- The topic came into the state. -/
  | transition
  /-- The topic stayed in the state. -/
  | repetition
  deriving DecidableEq, Repr

/-- What subscribers of a topic are told about one window. -/
structure Event where
  topic : String
  state : UInt32
  value : Float
  windowStart : Millis
  windowEnd : Millis
  /-- The watermark that closed the window. -/
  timestamp : Millis
  device : String
  point : String
  kind : EventKind
  deriving DecidableEq, Repr

/-- The name of a kind of event. -/
def EventKind.name : EventKind → String
  | .transition => "transition"
  | .repetition => "repeat"

/-- An event as a document holds it. -/
def Event.toJson (e : Event) : Json :=
  .record
    [("topic", .ofText e.topic),
     ("state", .ofWord32 e.state),
     ("aggregate_value", .ofFloat e.value),
     ("window_start", e.windowStart.toJson),
     ("window_end", e.windowEnd.toJson),
     ("timestamp", e.timestamp.toJson),
     ("device", .ofText e.device),
     ("point", .ofText e.point),
     ("kind", .ofText e.kind.name)]

end TelemetryBands
