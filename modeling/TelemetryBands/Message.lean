import TelemetryBands.Json.Writer
import TelemetryBands.Publication.Event

/-!
# Messages

The form in which events leave the program: a time with the values measured at it. Events whose
windows end together may share a message.
-/

namespace TelemetryBands

/-- A value of an endpoint. -/
structure DataPoint where
  device : String
  point : String
  value : Float
  deriving DecidableEq, Repr

/-- The values of one time. -/
structure Message where
  time : Millis
  data : List DataPoint
  deriving DecidableEq, Repr

/-- The value that an event reports. -/
def DataPoint.ofEvent (e : Event) : DataPoint :=
  ⟨e.device, e.point, e.value⟩

/-- A value as a document holds it. -/
def DataPoint.toJson (d : DataPoint) : Json :=
  .record [("device", .ofText d.device), ("point", .ofText d.point), ("value", .ofFloat d.value)]

namespace Message

/-- The message of one event. -/
def ofEvent (e : Event) : Message :=
  ⟨e.windowEnd, [.ofEvent e]⟩

/-- Adds the value of an event to the message of its time; without one a new message follows. -/
def addEvent (e : Event) : List Message → List Message
  | [] => [ofEvent e]
  | m :: messages =>
    if m.time = e.windowEnd then { m with data := m.data ++ [.ofEvent e] } :: messages
    else m :: addEvent e messages

/-- The messages of a list of events, one for each time. -/
def grouped (events : List Event) : List Message :=
  events.foldl (fun messages e => addEvent e messages) []

/-- A message as a document holds it. -/
def toJson (m : Message) : Json :=
  .record [("time", m.time.toJson), ("datas", .array (m.data.map DataPoint.toJson))]

/-- The text of a message. -/
def encode (m : Message) : String :=
  m.toJson.compact

end Message

end TelemetryBands
