import TelemetryBands.Clock.Millis
import TelemetryBands.Decimal.Numeral
import TelemetryBands.Decimal.Reading
import TelemetryBands.Failure
import TelemetryBands.Json.Tree
import TelemetryBands.Text.Blank
import TelemetryBands.Text.Casing

/-!
# Written durations

A topic document writes a duration as a number of milliseconds or as a text: a decimal with a unit,
`3000ms`, `3,000`, `2.5 s`, `5min`, `1h`. Commas, underscores and white space in the text mean
nothing. Durations are rounded to whole milliseconds.
-/

namespace TelemetryBands

/-- A duration as a document writes it. -/
inductive WrittenDuration where
  | number (ms : Float)
  | text (s : String)
  deriving DecidableEq, Repr

namespace WrittenDuration

/-- Why a written duration has no value. -/
inductive Flaw where
  | negative (ms : Float)
  | unreadable (s : String)
  | unknownUnit (s : String)
  deriving DecidableEq, Repr

/-- The failure that a flaw is answered with. -/
def Flaw.failure : Flaw → Failure
  | .negative ms => ⟨.validation, "Invalid duration " ++ Decimal.message ms⟩
  | .unreadable s => ⟨.validation, s!"Invalid duration '{s}'"⟩
  | .unknownUnit s => ⟨.validation, s!"Unknown duration unit in '{s}'"⟩

/-- The written duration that a document holds. -/
def ofJson? (j : Json) : Option WrittenDuration :=
  (j.real?.map .number) <|> (j.text?.map .text)

/-- A text without separators, in lower case. -/
def simplify (cs : List Char) : List Char :=
  Text.lower (cs.filter fun c => c != ',' && c != '_' && !Text.isBlank c)

/-- Whether a character belongs to the number and not to the unit behind it. -/
def isNumeric (c : Char) : Bool :=
  Text.isDigit c || c == '.'

/-- The milliseconds of a unit. -/
def unitMillis? (name : List Char) : Option Float :=
  match String.ofList name with
  | "" | "ms" => some 1.0
  | "s" | "sec" | "secs" => some 1000.0
  | "m" | "min" | "mins" => some 60000.0
  | "h" | "hr" | "hrs" => some 3600000.0
  | _ => none

/-- The duration that a text writes. -/
def ofText (s : String) : Except Flaw Millis :=
  let cs := simplify s.toList
  match Decimal.float? (cs.takeWhile isNumeric) with
  | none => .error (.unreadable s)
  | some x =>
    match unitMillis? (cs.dropWhile isNumeric) with
    | none => .error (.unknownUnit s)
    | some unitMillis => .ok (Millis.ofFloat (x * unitMillis))

/-- The duration that is written. -/
def value : WrittenDuration → Except Flaw Millis
  | .number ms =>
    if !Decimal.isFinite ms || ms < 0.0 then .error (.negative ms) else .ok (Millis.ofFloat ms)
  | .text s => ofText s

end WrittenDuration

end TelemetryBands
