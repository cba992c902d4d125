import TelemetryBands.Publication.Detector
import TelemetryBands.Publication.Suppressor

/-!
# Snapshots of topics

What of a topic survives a restart: its band, its record of publications and its watermark. The text
of a snapshot is a document without gaps.
-/

namespace TelemetryBands

/-- What of a topic survives a restart. -/
structure Snapshot where
  detector : Detector
  suppressor : Suppressor
  watermark : Option Millis
  deriving DecidableEq, Repr

namespace Snapshot

/-- The members of a snapshot, in the order in which an array lists them. -/
def fields : List Json.Field :=
  [.plain "detector", .plain "suppressor", .plain "watermark"]

/-- A snapshot as a document holds it. -/
def toJson (s : Snapshot) : Json :=
  .record
    [("detector", s.detector.toJson),
     ("suppressor", s.suppressor.toJson),
     ("watermark", .ofOption Millis.toJson s.watermark)]

/-- The snapshot that a document holds. -/
def ofJson? (j : Json) : Option Snapshot :=
  (Json.Record.read? fields j).bind fun r =>
  (r.required? "detector" Detector.ofJson?).bind fun detector =>
  (r.required? "suppressor" Suppressor.ofJson?).bind fun suppressor =>
  (r.optional? "watermark" Millis.ofJson?).map fun watermark => ⟨detector, suppressor, watermark⟩

/-- The text that keeps a snapshot. -/
def save (s : Snapshot) : String :=
  s.toJson.compact

/-- The failure of a text that keeps no snapshot. -/
def unreadable : Failure :=
  ⟨.parse, Failure.readerRemark⟩

/-- The snapshot that a text keeps. -/
def load (text : String) : Except Failure Snapshot :=
  match (Json.parse? text).bind ofJson? with
  | some s => .ok s
  | none => .error unreadable

end Snapshot

end TelemetryBands
