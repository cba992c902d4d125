import TelemetryBands.Program.Validation
import TelemetryBands.Release
import TelemetryBands.Settings

/-!
# Checks of the environment

A report on the version, on the files that are named and on the standard input. A file that is not
there is worth a warning; one that is not in order is an error.
-/

namespace TelemetryBands.Program

/-- What a check found. -/
inductive Status where
  | ok
  | warning
  | error
  deriving DecidableEq, Repr

/-- A check with what it found. -/
structure Check where
  name : String
  status : Status
  message : String
  deriving DecidableEq, Repr

/-- The mark before a check in a text. -/
def Status.mark : Status → String
  | .ok => "[OK]"
  | .warning => "[WARN]"
  | .error => "[ERR]"

/-- The name of what a check found. -/
def Status.name : Status → String
  | .ok => "ok"
  | .warning => "warning"
  | .error => "error"

namespace Check

/-- A check as a document holds it. -/
def toJson (c : Check) : Json :=
  .record
    [("name", .ofText c.name), ("status", .ofText c.status.name), ("message", .ofText c.message)]

/-- The line of a report that shows a check. -/
def line (c : Check) : String :=
  "  " ++ c.status.mark ++ " " ++ c.name ++ ": " ++ c.message ++ "\n"

/-- The check that a result of looking at something is. -/
def ofExcept (name : String) : Except String String → Check
  | .ok message => ⟨name, .ok, message⟩
  | .error message => ⟨name, .error, message⟩

/-- A check of a file: `look` looks at its text. -/
def ofFile (i : Inputs) (name path : String) (look : String → Except String String) : Check :=
  match i.file path with
  | .error .missing => ⟨name, .warning, path ++ " does not exist"⟩
  | .error obstacle => ⟨name, .error, obstacle.text⟩
  | .ok bytes =>
    match Feed.textOf? bytes with
    | none => ⟨name, .error, "stream did not contain valid UTF-8"⟩
    | some text => ofExcept name (look text)

/-- The check of the version, which always passes. -/
def version : Check :=
  ⟨"engine_version", .ok, Release.engine ++ " version " ++ Release.version⟩

/-- Looks at a text that should describe settings. -/
def lookAtSettings (text : String) : Except String String :=
  match Settings.parse text with
  | .error failure => .error failure.message
  | .ok s =>
    .ok s!"Config valid (max {s.maxTopics} topics, queue capacity {s.queueCapacity})"

/-- Looks at a text that should define topics. -/
def lookAtDefinitions (text : String) : Except String String :=
  match Definition.parse text with
  | .error problem => .error problem.message
  | .ok definitions =>
    match (Validation.ofDefinitions definitions).problem? with
    | some problem => .error problem.message
    | none => .ok s!"{definitions.length} topic definition(s) valid"

/-- The check of a file with settings. -/
def settings (i : Inputs) (path : String) : Check :=
  ofFile i "config" path lookAtSettings

/-- The check of a file with definitions of topics. -/
def definitions (i : Inputs) (path : String) : Check :=
  ofFile i "topics" path lookAtDefinitions

/-- The check of the standard input, which always passes. -/
def stdin (i : Inputs) : Check :=
  ⟨"stdin", .ok,
    if i.terminal then "stdin is a TTY (interactive mode)"
    else "stdin is a pipe (streaming mode ready)"⟩

end Check

/-- A report on the environment. -/
structure Checkup where
  checks : List Check
  deriving DecidableEq, Repr

namespace Checkup

/-- Checks the environment and the files that are named. -/
def ofInputs (i : Inputs) (config topics : Option String) : Checkup :=
  ⟨.version :: (config.map (Check.settings i)).toList
    ++ (topics.map (Check.definitions i)).toList ++ [.stdin i]⟩

/-- A report as a document holds it. -/
def toJson (c : Checkup) : Json :=
  .record
    [("engine", .ofText Release.engine),
     ("version", .ofText Release.version),
     ("checks", .array (c.checks.map Check.toJson))]

/-- A report as a text. -/
def text (c : Checkup) : String :=
  "Topic Watch Doctor Report\n"
    ++ "=========================\n"
    ++ "Engine:  " ++ Release.engine ++ "\n"
    ++ "Version: " ++ Release.version ++ "\n"
    ++ "\nChecks:\n"
    ++ String.join (c.checks.map Check.line)

/-- The problem that a report tells of: a check that found an error. -/
def problem? (c : Checkup) : Option Problem :=
  if c.checks.any fun check => check.status == .error then some .unhealthy else none

/-- Shows a report. -/
def outcome (c : Checkup) (json : Bool) : Outcome :=
  .report (if json then c.toJson.pretty ++ "\n" else c.text) c.problem?

end Checkup

end TelemetryBands.Program
