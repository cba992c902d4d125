import TelemetryBands.Json.Record
import TelemetryBands.Json.Variant
import TelemetryBands.Ladder.Rule
import TelemetryBands.Topic.Duration

/-!
# Written repeat policies

How often a state that persists is published again is written as a duration, as a number of times
(`3x`, `x3`, `3 times`), or as an object that names a duration, or a count with an optional period.
-/

namespace TelemetryBands

/-- A repeat policy as a document writes it. -/
inductive WrittenRepetition where
  | number (ms : Float)
  | text (s : String)
  | parts (duration : Option WrittenDuration) (count : Option UInt32)
      (period : Option WrittenDuration)
  deriving DecidableEq, Repr

namespace WrittenRepetition

/-- Why a written repeat policy has no meaning. -/
inductive Flaw where
  | duration (flaw : WrittenDuration.Flaw)
  | neitherOrBoth
  deriving DecidableEq, Repr

/-- The failure that a flaw is answered with. -/
def Flaw.failure : Flaw → Failure
  | .duration flaw => flaw.failure
  | .neitherOrBoth => ⟨.validation, "repeatPub needs exactly one of duration or count"⟩

/-- The parts that an object names. -/
def partsOfJson? (j : Json) : Option WrittenRepetition :=
  (Json.Record.readObject? [.plain "duration", .plain "count", .plain "period"] j).bind fun r =>
  (r.optional? "duration" WrittenDuration.ofJson?).bind fun duration =>
  (r.optional? "count" Json.word32?).bind fun count =>
  (r.optional? "period" WrittenDuration.ofJson?).map fun period => .parts duration count period

/-- The written repeat policy that a document holds. -/
def ofJson? (j : Json) : Option WrittenRepetition :=
  (j.real?.map .number) <|> (j.text?.map .text) <|> partsOfJson? j

/-- The number that stands before or behind the mark of a count. -/
def countBody? (cs : List Char) : Option (List Char) :=
  Text.dropEnding? "times".toList cs <|> Text.dropEnding? "time".toList cs
    <|> Text.dropEnding? ['x'] cs <|> Text.dropBeginning? ['x'] cs

/-- The number of times that a text writes, if it writes one. -/
def count? (s : String) : Option UInt32 :=
  (countBody? (Text.lower (Text.trim s.toList))).bind fun body =>
    (Text.natural? Text.limit32 (Text.trim body)).map UInt32.ofNat

/-- The policy of a duration. -/
def ofDuration (d : WrittenDuration) : Except Flaw RepeatPolicy :=
  match d.value with
  | .ok ms => .ok (.duration ms)
  | .error flaw => .error (.duration flaw)

/-- The policy of a count with an optional period. -/
def ofCount (max : UInt32) (period : Option WrittenDuration) : Except Flaw RepeatPolicy :=
  match period with
  | none => .ok (.count max none)
  | some d =>
    match d.value with
    | .ok ms => .ok (.count max (some ms))
    | .error flaw => .error (.duration flaw)

/-- The policy that is written. -/
def value : WrittenRepetition → Except Flaw RepeatPolicy
  | .number ms => ofDuration (.number ms)
  | .text s =>
    match count? s with
    | some max => .ok (.count max none)
    | none => ofDuration (.text s)
  | .parts (some duration) none _ => ofDuration duration
  | .parts none (some max) period => ofCount max period
  | .parts _ _ _ => .error .neitherOrBoth

end WrittenRepetition

end TelemetryBands
