import TelemetryBands.Clock.Millis
import TelemetryBands.Json.Tree

/-!
# Instants in documents

An instant is a whole number of milliseconds in a document.
-/

namespace TelemetryBands.Millis

/-- The instant that a document holds. -/
def ofJson? (j : Json) : Option Millis :=
  (j.int? first.val last.val).bind ofInt?

/-- An instant as a document holds it. -/
def toJson (t : Millis) : Json :=
  .ofInt t.val

end TelemetryBands.Millis
