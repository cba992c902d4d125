/-!
# Failures

What an operation answers when it refuses: a kind, which clients tell apart by a number and a name,
and a text that names the cause. Each module that can refuse lists its causes and words them.
-/

namespace TelemetryBands

/-- The kinds of failures that clients tell apart. -/
inductive Failure.Kind where
  | validation
  | notFound
  | alreadyExists
  | resource
  | lateData
  | permissionDenied
  | evaluation
  | closed
  | timeout
  | parse
  | json
  deriving DecidableEq, Repr

/-- A refusal: its kind and the text that names its cause. -/
structure Failure where
  kind : Failure.Kind
  detail : String
  deriving DecidableEq, Repr

namespace Failure

/-- The number of a kind in the table of client errors. -/
def Kind.code : Kind → Nat
  | .validation => 13061
  | .notFound => 13013
  | .alreadyExists => 13074
  | .resource => 13050
  | .lateData => 13033
  | .permissionDenied => 13040
  | .evaluation => 13011
  | .closed => 13072
  | .timeout => 13014
  | .parse | .json => 13012

/-- The name of a kind. -/
def Kind.name : Kind → String
  | .validation => "VALIDATION_ERROR"
  | .notFound => "NOT_FOUND"
  | .alreadyExists => "ALREADY_EXISTS"
  | .resource => "RESOURCE_ERROR"
  | .lateData => "LATE_DATA"
  | .permissionDenied => "PERMISSION_DENIED"
  | .evaluation => "EVALUATION_ERROR"
  | .closed => "CLOSED"
  | .timeout => "TIMEOUT"
  | .parse => "PARSE_ERROR"
  | .json => "JSON_ERROR"

/-- The number of a failure. -/
def code (f : Failure) : Nat :=
  f.kind.code

/-- The name of a failure. -/
def name (f : Failure) : String :=
  f.kind.name

/-- The whole text of a failure. -/
def message (f : Failure) : String :=
  match f.kind with
  | .validation => "Invalid topic spec: " ++ f.detail
  | .notFound => "Not found: " ++ f.detail
  | .alreadyExists => "Already exists: " ++ f.detail
  | .resource => "Resource limit exceeded: " ++ f.detail
  | .lateData => "Late sample dropped: " ++ f.detail
  | .permissionDenied => "Permission denied: " ++ f.detail
  | .evaluation => "Evaluation error: " ++ f.detail
  | .closed => "Subscription closed: " ++ f.detail
  | .timeout => "Timed out waiting for the next message"
  | .parse => "Failed to parse input: " ++ f.detail
  | .json => "Invalid JSON: " ++ f.detail

/-- What stands in a text for the remark of the reader that refused a document, a time or an id: the
texts name the reader and leave its remark out. -/
def readerRemark : String :=
  "<detail>"

/-- A wait that ended without a message. -/
def timedOut : Failure :=
  ⟨.timeout, ""⟩

/-- A document that cannot be read. -/
def unreadableDocument : Failure :=
  ⟨.json, readerRemark⟩

/-- A topic that is not there. -/
def noTopic (name : String) : Failure :=
  ⟨.notFound, s!"topic '{name}'"⟩

end Failure

end TelemetryBands
