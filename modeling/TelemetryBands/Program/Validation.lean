import TelemetryBands.Program.Definitions
import TelemetryBands.Program.Outcome

/-!
# Validation of definitions

A report on which of some definitions describe no topic, and why. It is shown as a text or as a
document.
-/

namespace TelemetryBands.Program

/-- A definition that describes no topic, at its place among all definitions. -/
structure Defect where
  index : Nat
  topic : String
  failure : Failure
  deriving DecidableEq, Repr

/-- A report on definitions. -/
structure Validation where
  total : Nat
  defects : List Defect
  deriving DecidableEq, Repr

/-- A defect as a document holds it. -/
def Defect.toJson (d : Defect) : Json :=
  .record
    [("index", .ofInt d.index), ("topic", .ofText d.topic), ("error", .ofText d.failure.message)]

/-- The line of a report that names a defect. -/
def Defect.line (d : Defect) : String :=
  "  - Topic " ++ d.topic ++ s!" (index {d.index}): " ++ d.failure.message ++ "\n"

namespace Validation

/-- The defects of definitions, the first of which stands at place `index`. -/
def defectsFrom (index : Nat) : List Definition → List Defect
  | [] => []
  | d :: definitions =>
    match d.failure? with
    | none => defectsFrom (index + 1) definitions
    | some failure => ⟨index, d.name, failure⟩ :: defectsFrom (index + 1) definitions

/-- The report on definitions. -/
def ofDefinitions (definitions : List Definition) : Validation :=
  ⟨definitions.length, defectsFrom 0 definitions⟩

/-- The number of definitions that describe no topic. -/
def invalid (v : Validation) : Nat :=
  v.defects.length

/-- The number of definitions that describe a topic. -/
def valid (v : Validation) : Nat :=
  v.total - v.invalid

/-- A report as a document holds it. -/
def toJson (v : Validation) : Json :=
  .record
    [("total_topics", .ofInt v.total),
     ("valid_topics", .ofInt v.valid),
     ("invalid_topics", .ofInt v.invalid),
     ("errors", .array (v.defects.map Defect.toJson))]

/-- The part of a report that names the defects, if there are any. -/
def defectLines (v : Validation) : String :=
  if v.defects.isEmpty then "" else "\nErrors:\n" ++ String.join (v.defects.map Defect.line)

/-- A report as a text. -/
def text (v : Validation) : String :=
  "Validation Report\n"
    ++ "=================\n"
    ++ s!"Total topics:   {v.total}\n"
    ++ s!"Valid topics:   {v.valid}\n"
    ++ s!"Invalid topics: {v.invalid}\n"
    ++ v.defectLines

/-- The problem that a report tells of, if any. -/
def problem? (v : Validation) : Option Problem :=
  if v.invalid = 0 then none else some (.invalid v.invalid)

/-- Shows a report. -/
def outcome (v : Validation) (json : Bool) : Outcome :=
  .report (if json then v.toJson.pretty ++ "\n" else v.text) v.problem?

end Validation

end TelemetryBands.Program
