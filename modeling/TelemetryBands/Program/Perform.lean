import TelemetryBands.Program.Checkup
import TelemetryBands.Program.Formats
import TelemetryBands.Program.Run

/-!
# From a command line to its outcome

`Command.perform` carries a command out on what it finds, and `perform` does so for a command line.
-/

namespace TelemetryBands.Program

namespace Command

/-- The files that a command reads. -/
def files : Command → List String
  | .run o => o.topics :: o.input :: o.config.toList ++ o.loadState.toList
  | .validate input _ => [input]
  | .doctor config topics _ => config.toList ++ topics.toList
  | .schema _ _ => []

/-- Whether a command reads the standard input. -/
def readsStdin : Command → Bool
  | .run o => o.topics == standardName || o.input == standardName
  | .validate input _ => input == standardName
  | .doctor _ _ _ => false
  | .schema _ _ => false

/-- Carries a command out. -/
def perform (i : Inputs) : Command → Outcome
  | .run o => .ofExcept (o.outcome i)
  | .validate input json =>
    .ofExcept ((i.definitions input).map fun definitions =>
      (Validation.ofDefinitions definitions).outcome json)
  | .doctor config topics json => (Checkup.ofInputs i config topics).outcome json
  | .schema side json =>
    .ofText (if json then (Formats.schema side).pretty ++ "\n" else Formats.text side)

end Command

/-- What is shown to somebody who asks for help. -/
def helpText : String :=
  "Evaluate threshold topics over telemetry streams\n"
    ++ "\n"
    ++ "Usage: " ++ Release.command ++ " [--log-level LEVEL] COMMAND\n"
    ++ "\n"
    ++ "Commands:\n"
    ++ "  run       Evaluate an NDJSON sample stream against a set of topics\n"
    ++ "  validate  Check topic definitions without running them\n"
    ++ "  doctor    Diagnose configuration and environment\n"
    ++ "  schema    Print schema information\n"

/-- The outcome of a command line that holds no command. -/
def Stop.outcome : Stop → Outcome
  | .misuse => ⟨[], "", .misused⟩
  | .help => .ofText helpText
  | .version => .ofText (Release.command ++ " " ++ Release.version ++ "\n")

/-- The outcome of a command line. -/
def perform (i : Inputs) (words : List String) : Outcome :=
  match Command.read words with
  | .ok command => command.perform i
  | .error stop => stop.outcome

end TelemetryBands.Program
