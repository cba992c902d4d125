import TelemetryBands.Registry.Traffic

/-!
# Watermarks from a clock

A ticker reads a clock from time to time and moves the watermarks of all topics to its reading less
a period of grace. Readings need not ascend; a watermark that was reached before does nothing.
-/

namespace TelemetryBands.Registry

/-- Moves all watermarks on after one reading of the clock. -/
def tick (r : Registry) (grace now : Millis) : Registry × List Event :=
  r.advanceAll (now.satSub grace)

/-- Moves all watermarks on after each of a list of readings. -/
def ticks (r : Registry) (grace : Millis) (readings : List Millis) : Registry :=
  readings.foldl (fun r now => (r.tick grace now).1) r

end TelemetryBands.Registry
