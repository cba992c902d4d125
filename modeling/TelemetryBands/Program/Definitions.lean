import TelemetryBands.Json.Document
import TelemetryBands.Json.Reader
import TelemetryBands.Json.Record
import TelemetryBands.Program.Inputs
import TelemetryBands.Topic.Spec

/-!
# Definitions of topics

A document that defines topics is an object with a description for each name, or an array of records
of a name and a description. The definitions of an object come in the order of their names, those of
an array in its own order.
-/

namespace TelemetryBands.Program

/-- A topic to be created. -/
structure Definition where
  name : String
  /-- The text of its description. -/
  text : String
  deriving DecidableEq, Repr

namespace Definition

/-- The definition of a name and a description, which takes its one form. -/
def make? (name : String) (spec : Json) : Option Definition :=
  (spec.settle? Json.depthLimit).map fun spec => ⟨name, spec.compact⟩

/-- The members of a record that defines a topic. -/
def fields : List Json.Field :=
  [.plain "name", .plain "spec"]

/-- The definition that an item of an array holds. -/
def ofItem? (j : Json) : Option Definition :=
  (Json.Record.read? fields j).bind fun r =>
  (r.required? "name" Json.text?).bind fun name =>
  (r.get? "spec").bind fun spec => make? name spec

/-- The definitions that the members of an object hold. -/
def ofMembers? (members : List (Quoted × Json)) : Option (List Definition) :=
  (Json.settleMembers? Json.depthLimit members []).map fun members =>
    members.map fun member => ⟨member.1, member.2.compact⟩

/-- The definitions that a document holds. -/
def ofJson? (j : Json) : Option (List Definition) :=
  if j.isSound Json.depthLimit then
    match j with
    | .object members => ofMembers? members
    | .array items => items.mapM ofItem?
    | _ => none
  else none

/-- The definitions that a text holds. -/
def parse (text : String) : Except Problem (List Definition) :=
  match (Json.parse? text).bind ofJson? with
  | some definitions => .ok definitions
  | none => .error .document

/-- The failure of a definition that describes no topic. -/
def failure? (d : Definition) : Option Failure :=
  match TopicSpec.parse d.text with
  | .ok _ => none
  | .error flaw => some flaw.failure

end Definition

/-- The definitions that a file or the standard input holds. -/
def Inputs.definitions (i : Inputs) (name : String) : Except Problem (List Definition) :=
  (i.text name).bind Definition.parse

end TelemetryBands.Program
