import TelemetryBands.Json.Reader
import TelemetryBands.Json.Record
import TelemetryBands.Json.Variant
import TelemetryBands.Json.Writer
import TelemetryBands.Ladder.Basic

/-!
# Transitions between bands

A detector holds the band that a topic is in. Every classified window is either a transition into
another state or one more window in the same state; an unclassified window leaves the band alone.
-/

namespace TelemetryBands

/-- The band of a topic, and how often it changed. -/
structure Detector where
  band : Band
  transitions : UInt64
  deriving DecidableEq, Repr

/-- What a classified window means for the band of its topic. -/
inductive Observation where
  /-- The window belongs to no band. -/
  | nothing
  /-- The topic stays in its state. -/
  | steady (state : UInt32)
  /-- The topic leaves a band for a state. -/
  | changed (left : Band) (entered : UInt32)
  deriving DecidableEq, Repr

namespace Detector

/-- A detector that has seen nothing. -/
def initial : Detector :=
  ⟨.unclassified, 0⟩

instance : Inhabited Detector := ⟨initial⟩

/-- Takes in the band of one more window. -/
def observe (d : Detector) (band : Band) : Detector × Observation :=
  match band with
  | .unclassified => (d, .nothing)
  | .state s =>
    if d.band = .state s then (d, .steady s)
    else (⟨.state s, d.transitions + 1⟩, .changed d.band s)

end Detector

/-- A band as a document holds it. -/
def Band.toJson : Band → Json
  | .unclassified => .ofText "unclassified"
  | .state s => .record [("state", .ofWord32 s)]

/-- The band that a document holds. -/
def Band.ofJson? (j : Json) : Option Band :=
  if j.plainVariant? = some "unclassified" then some .unclassified
  else ((j.variantValue? "state").bind Json.word32?).map .state

namespace Detector

/-- The fields of a detector in a document. -/
def fields : List Json.Field :=
  [.plain "currentBand", .plain "transitions"]

/-- A detector as a document holds it. -/
def toJson (d : Detector) : Json :=
  .record [("currentBand", d.band.toJson), ("transitions", .ofWord64 d.transitions)]

/-- The detector that a document holds. -/
def ofJson? (j : Json) : Option Detector :=
  (Json.Record.read? fields j).bind fun r =>
  (r.required? "currentBand" Band.ofJson?).bind fun band =>
  (r.required? "transitions" Json.word64?).map fun transitions => ⟨band, transitions⟩

/-- The text that keeps a detector. -/
def save (d : Detector) : String :=
  d.toJson.compact

/-- The detector that a text keeps. -/
def load? (text : String) : Option Detector :=
  (Json.parse? text).bind ofJson?

end Detector

end TelemetryBands
