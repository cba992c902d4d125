import TelemetryBands.Decimal.Numeral
import TelemetryBands.Decimal.Reading
import TelemetryBands.Failure
import TelemetryBands.Text.Blank

/-!
# Aggregations

The functions that make one number of the samples of a window, and the texts that name them.
-/

namespace TelemetryBands

/-- A function that makes one number of the samples of a window. -/
inductive Aggregation where
  | last
  | avg
  | sum
  | min
  | max
  | count
  /-- The percentage of the samples inside the rule's own band, with the percentage from which on
  the window asserts the state of the rule. -/
  | matching (threshold : Float)
  deriving DecidableEq, Repr, Inhabited

namespace Aggregation

/-- Why a text names no aggregation. -/
inductive Flaw where
  | unknown (text : String)
  | percentage (text : String)
  deriving DecidableEq, Repr

/-- The failure that a flaw is answered with. -/
def Flaw.failure : Flaw → Failure
  | .unknown text => ⟨.validation, s!"Unknown aggregation '{text}'"⟩
  | .percentage text => ⟨.validation, s!"Invalid MATCHING percentage in '{text}'"⟩

/-- The text between the parentheses of `MATCHING(…)`. -/
def matchingBody? (cs : List Char) : Option (List Char) :=
  (Text.dropBeginning? "MATCHING(".toList cs).bind (Text.dropEnding? [')'])

/-- A percentage with any number of percent signs behind it. -/
def percentage? (cs : List Char) : Option Float :=
  Decimal.float? (Text.trim (Text.dropEnd (· == '%') (Text.trim cs)))

/-- The aggregation that a text names. -/
def parse (text : String) : Except Flaw Aggregation :=
  let keyword := Text.upper (Text.trim text.toList)
  match String.ofList keyword with
  | "LAST" => .ok .last
  | "AVG" | "AVERAGE" | "MEAN" => .ok .avg
  | "SUM" => .ok .sum
  | "MIN" => .ok .min
  | "MAX" => .ok .max
  | "COUNT" => .ok .count
  | _ =>
    match matchingBody? keyword with
    | none => .error (.unknown text)
    | some body =>
      match percentage? body with
      | none => .error (.percentage text)
      | some threshold => .ok (.matching threshold)

/-- The text that shows an aggregation. -/
def text : Aggregation → String
  | .last => "LAST"
  | .avg => "AVG"
  | .sum => "SUM"
  | .min => "MIN"
  | .max => "MAX"
  | .count => "COUNT"
  | .matching threshold => "MATCHING(" ++ Decimal.message threshold ++ ")"

end Aggregation

end TelemetryBands
