import TelemetryBands.Text.Casing
import TelemetryBands.Text.Digits

/-!
# Reading decimals

The numbers that durations and percentages are written as: an optional sign, digits with an optional
point anywhere among them, an optional power of ten; or one of the words for infinity and for an
undefined number in any letter case. The value is the nearest floating-point number.
-/

namespace TelemetryBands.Decimal

/-- The floating-point number nearest to `n * 10 ^ e`. Far outside the range of floating-point
numbers the power of ten is not computed. -/
def nearest (n : Nat) (e : Int) : Float :=
  let magnitude := (Text.digits n).length + e
  if n = 0 then 0.0
  else if magnitude > 400 then 1.0 / 0.0
  else if magnitude < -400 then 0.0
  else Float.ofScientific n (e < 0) e.natAbs

/-- Reads the power of ten after the mark `e`, if there is one. -/
def exponent? : List Char → Option Int
  | [] => some 0
  | mark :: cs => if mark = 'e' ∨ mark = 'E' then Text.integer? cs else none

/-- Reads digits with an optional point among them and an optional power of ten; at least one digit
must stand before or after the point. -/
def magnitude? (cs : List Char) : Option Float :=
  let whole := cs.takeWhile Text.isDigit
  let rest := cs.dropWhile Text.isDigit
  let (fraction, rest) := match rest with
    | '.' :: rest => (rest.takeWhile Text.isDigit, rest.dropWhile Text.isDigit)
    | _ => ([], rest)
  if whole.isEmpty && fraction.isEmpty then none
  else
    (exponent? rest).map fun e =>
      nearest (Text.ofDigits (whole ++ fraction)) (e - fraction.length)

/-- Reads a number without a sign, or a word. -/
def unsigned? (cs : List Char) : Option Float :=
  let word := String.ofList (cs.map Char.toLower)
  if word = "inf" ∨ word = "infinity" then some (1.0 / 0.0)
  else if word = "nan" then some (0.0 / 0.0)
  else magnitude? cs

/-- Reads a number with an optional sign. -/
def float? : List Char → Option Float
  | '+' :: cs => unsigned? cs
  | '-' :: cs => (unsigned? cs).map fun x => -x
  | cs => unsigned? cs

end TelemetryBands.Decimal
