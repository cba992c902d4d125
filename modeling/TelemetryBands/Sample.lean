import TelemetryBands.Clock.Millis
import TelemetryBands.Failure
import TelemetryBands.Json.Tree

/-!
# Samples

A sample is a value at an instant. Values are numbers, truth values or texts; only finite numbers
and integers can be aggregated as numbers.
-/

namespace TelemetryBands

/-- The value of a sample. -/
inductive SampleValue where
  | number (x : Float)
  | integer (n : Int64)
  | boolean (b : Bool)
  | text (s : String)
  deriving DecidableEq, Repr

/-- A value at an instant. -/
structure Sample where
  time : Millis
  value : SampleValue
  deriving DecidableEq, Repr

namespace SampleValue

/-- The number that a value is, if it is finite. -/
def toFloat? : SampleValue → Option Float
  | .number x => if Decimal.isFinite x then some x else none
  | .integer n => some (Float.ofInt n.toInt)
  | .boolean _ => none
  | .text _ => none

/-- What a value that is no number is called in messages. -/
def kindName : SampleValue → String
  | .number _ => "non-finite number"
  | .integer _ => "integer"
  | .boolean _ => "boolean"
  | .text _ => "text"

/-- The failure of aggregating a value that is no number. -/
def notNumeric (v : SampleValue) : Failure :=
  ⟨.evaluation, "cannot aggregate " ++ v.kindName ++ " sample"⟩

/-- The number that a value is, or why it is none. -/
def numeric (v : SampleValue) : Except Failure Float :=
  match v.toFloat? with
  | some x => .ok x
  | none => .error v.notNumeric

/-- The value that a document holds: every number, integers included, is a floating-point number. -/
def ofJson? (j : Json) : Option SampleValue :=
  match j with
  | .bool b => some (.boolean b)
  | .number n => n.real?.map .number
  | .string q => q.text?.map .text
  | _ => none

/-- A value as a document holds it. -/
def toJson : SampleValue → Json
  | .number x => .ofFloat x
  | .integer n => .ofInt n.toInt
  | .boolean b => .bool b
  | .text s => .ofText s

end SampleValue

end TelemetryBands
