import TelemetryBands.Failure
import TelemetryBands.Json.Writer

/-!
# Problems of a command

Why a command fails, and how it says so: with a code, a message and a hint at what helps.
-/

namespace TelemetryBands.Program

/-- Why a command fails. -/
inductive Problem where
  /-- A file cannot be read or written. -/
  | file
  /-- A file is no document of the form that is needed. -/
  | document
  | failure (f : Failure)
  | noTopics
  /-- So many definitions of topics are invalid. -/
  | invalid (count : Nat)
  /-- A check of the environment found an error. -/
  | unhealthy
  deriving DecidableEq, Repr

namespace Problem

/-- The code of a problem. -/
def code : Problem → String
  | .file => "IO_ERROR"
  | .document => "JSON_ERROR"
  | .failure f => f.name
  | .noTopics => "NO_TOPICS"
  | .invalid _ => "VALIDATION_FAILED"
  | .unhealthy => "DOCTOR_FAILED"

/-- The message of a problem. -/
def message : Problem → String
  | .file | .document => Failure.readerRemark
  | .failure f => f.message
  | .noTopics => "no topics defined"
  | .invalid count => s!"{count} topic definition(s) failed validation"
  | .unhealthy => "one or more health checks failed"

/-- What helps against failures of a kind. -/
def hintFor : Failure.Kind → String
  | .validation => "Run 'topicwatch validate' for details"
  | .parse => "Check the sample stream format"
  | _ => "Check topic definitions and configuration"

/-- What helps against a problem. -/
def hint : Problem → String
  | .file => "Check file paths and permissions"
  | .document => "Check JSON syntax"
  | .failure f => hintFor f.kind
  | .noTopics => "Ensure the topics file is not empty"
  | .invalid _ => "Fix validation errors and retry"
  | .unhealthy => "Review the doctor report for details"

/-- A problem as a document holds it. -/
def toJson (p : Problem) : Json :=
  .record [("code", .ofText p.code), ("message", .ofText p.message), ("hint", .ofText p.hint)]

end Problem

end TelemetryBands.Program
