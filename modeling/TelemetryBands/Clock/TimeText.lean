import TelemetryBands.Clock.Calendar
import TelemetryBands.Clock.Millis
import TelemetryBands.Failure
import TelemetryBands.Json.Tree
import TelemetryBands.Text.Blank

/-!
# Written instants

An instant is written as a whole number of milliseconds, or as a date and a time of day with the
difference from universal time: `2024-01-15T08:30:00.250+02:00`. The letters may be in lower case, a
space may stand between date and time, and the fraction of the second may have any number of digits,
of which the first three count. A minute may have a second 60, which is the second after it.
-/

namespace TelemetryBands

namespace TimeText

/-- The number of two digits. -/
def twoDigits? (a b : Char) : Option Nat :=
  if Text.isDigits [a, b] then some (Text.ofDigits [a, b]) else none

/-- Two digits for a number of at most `most`. -/
def field? (most : Nat) (a b : Char) : Option Nat :=
  (twoDigits? a b).filter (· ≤ most)

/-- Reads `YYYY-MM-DD` for a date that the calendar has. -/
def date? : List Char → Option (CalendarDate × List Char)
  | y₁ :: y₂ :: y₃ :: y₄ :: '-' :: m₁ :: m₂ :: '-' :: d₁ :: d₂ :: rest =>
    (twoDigits? y₁ y₂).bind fun century =>
    (twoDigits? y₃ y₄).bind fun year =>
    (twoDigits? m₁ m₂).bind fun month =>
    (twoDigits? d₁ d₂).bind fun day =>
      let date : CalendarDate := ⟨100 * century + year, month, day⟩
      if date.isValid then some (date, rest) else none
  | _ => none

/-- Reads `hh:mm:ss` as a number of seconds. -/
def clock? : List Char → Option (Nat × List Char)
  | h₁ :: h₂ :: ':' :: m₁ :: m₂ :: ':' :: s₁ :: s₂ :: rest =>
    (field? 23 h₁ h₂).bind fun hour =>
    (field? 59 m₁ m₂).bind fun minute =>
    (field? 60 s₁ s₂).map fun second => (3600 * hour + 60 * minute + second, rest)
  | _ => none

/-- Reads the fraction of a second, if there is one, as whole milliseconds. -/
def fraction? : List Char → Option (Nat × List Char)
  | '.' :: cs =>
    let ds := cs.takeWhile Text.isDigit
    if ds.isEmpty then none
    else some (Text.ofDigits ((ds ++ ['0', '0']).take 3), cs.dropWhile Text.isDigit)
  | cs => some (0, cs)

/-- Reads the difference from universal time, to the end of the text, in minutes. -/
def zone? : List Char → Option Int
  | ['Z'] | ['z'] => some 0
  | [sign, h₁, h₂, ':', m₁, m₂] =>
    (field? 23 h₁ h₂).bind fun hour =>
    (field? 59 m₁ m₂).bind fun minute =>
      let minutes : Int := 60 * hour + minute
      if sign = '+' then some minutes
      else if sign = '-' ∨ sign = '−' then some (-minutes)
      else none
  | _ => none

/-- Reads a date, a time of day and the difference from universal time. -/
def stamp? (cs : List Char) : Option Int :=
  (date? cs).bind fun (date, rest) =>
    match rest with
    | separator :: rest =>
      if separator = 'T' ∨ separator = 't' ∨ separator = ' ' then
        (clock? rest).bind fun (seconds, rest) =>
        (fraction? rest).bind fun (millis, rest) =>
        (zone? rest).map fun minutes =>
          (date.dayNumber * 86400 + seconds - 60 * minutes) * 1000 + millis
      else none
    | [] => none

/-- Reads an instant in either form, with white space around it. -/
def millis? (cs : List Char) : Option Millis :=
  let cs := Text.trim cs
  ((Text.integer? cs).bind Millis.ofInt?) <|> ((stamp? cs).bind Millis.ofInt?)

end TimeText

/-- An instant as a document writes it. -/
inductive WrittenTime where
  | millis (t : Millis)
  | text (s : String)
  deriving DecidableEq, Repr

namespace WrittenTime

/-- The failure of a text that is no instant. -/
def notAnInstant (s : String) : Failure :=
  ⟨.parse, s!"Invalid timestamp '{s}': " ++ Failure.readerRemark⟩

/-- The written instant that a document holds: an integer or any text. -/
def ofJson? (j : Json) : Option WrittenTime :=
  match j.int? Millis.first.val Millis.last.val with
  | some i => (Millis.ofInt? i).map .millis
  | none => j.text?.map .text

/-- The instant that is written. -/
def value : WrittenTime → Except Failure Millis
  | .millis t => .ok t
  | .text s =>
    match TimeText.millis? s.toList with
    | some t => .ok t
    | none => .error (notAnInstant s)

end WrittenTime

end TelemetryBands
