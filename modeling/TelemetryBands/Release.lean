/-!
# Name and version

What the program is called in its reports and at the command line, and its version.
-/

namespace TelemetryBands.Release

/-- The name of the engine. -/
def engine : String := "topic-watch"

/-- The name of the command. -/
def command : String := "topicwatch"

/-- The version that is shown. -/
def version : String := "0.1.0"

end TelemetryBands.Release
