import TelemetryBands.Decimal.Numeral

/-!
# Numbers of a document

The numerals that a document may hold, and what they stand for. A numeral without point and power of
ten is an integer if it fits 64 bits with or without a sign; every other numeral is a floating-point
number. The first digits that fit 64 bits are taken over exactly and scaled by one power of ten;
digits beyond them only keep their place. A numeral too great for a floating-point number stands for
nothing.
-/

namespace TelemetryBands

open Decimal

namespace Decimal.Numeral

/-- The digits before a point: a lone zero, or digits that do not start with a zero. -/
def isWhole : List Char → Bool
  | [] => false
  | ['0'] => true
  | c :: cs => c != '0' && (c :: cs).all Text.isDigit

/-- Reads a power of ten: a mark, an optional sign, at least one digit and nothing else. -/
def readExponent? : List Char → Option (Option Exponent)
  | [] => some none
  | mark :: cs =>
    let (negative, ds) := match cs with
      | '+' :: ds => (false, ds)
      | '-' :: ds => (true, ds)
      | ds => (false, ds)
    if (mark = 'e' ∨ mark = 'E') ∧ Text.isDigits ds then some (some ⟨negative, ds⟩) else none

/-- Reads a numeral of a document, and nothing else. -/
def ofChars? (cs : List Char) : Option Numeral :=
  let (negative, body) := match cs with
    | '-' :: body => (true, body)
    | body => (false, body)
  let whole := body.takeWhile Text.isDigit
  if isWhole whole then
    match body.dropWhile Text.isDigit with
    | '.' :: rest =>
      let fraction := rest.takeWhile Text.isDigit
      if fraction.isEmpty then none
      else
        (readExponent? (rest.dropWhile Text.isDigit)).map fun exponent =>
          ⟨negative, whole, fraction, exponent⟩
    | rest => (readExponent? rest).map fun exponent => ⟨negative, whole, [], exponent⟩
  else none

/-- Appends digits to a significand while it stays below 2^64; also gives the number of digits left
over. -/
def absorb : Nat → List Char → Nat × Nat
  | significand, [] => (significand, 0)
  | significand, c :: cs =>
    let next := 10 * significand + (c.toNat - '0'.toNat)
    if next < Text.limit64 then absorb next cs else (significand, cs.length + 1)

/-- The power of ten after the mark, as an integer. -/
def power (n : Numeral) : Int :=
  match n.exponent with
  | none => 0
  | some e => if e.negative then -(Text.ofDigits e.digits : Int) else Text.ofDigits e.digits

/-- The significand and the power of ten that scales it. -/
def scaled (n : Numeral) : Nat × Int :=
  let (whole, wholeLeft) := absorb 0 n.whole
  let (significand, fractionLeft) := absorb whole n.fraction
  (significand, wholeLeft + fractionLeft - n.fraction.length + n.power)

/-- A power of ten as a floating-point number. -/
def tenTo (n : Nat) : Float :=
  Float.ofScientific 1 false n

/-- Division of a number by 10^308 up to three times, after which nothing is left of any
significand. -/
def sink (x : Float) : Nat → Float
  | 0 => x
  | times + 1 => sink (x / tenTo 308) times

/-- Scales a number by a power of ten in one step if the power has a floating-point number, and not
at all beyond the range of floating-point numbers. -/
def scale? (x : Float) (e : Int) : Option Float :=
  if 0 ≤ e then
    if 308 < e then (if x == 0.0 then some x else none)
    else
      let y := x * tenTo e.toNat
      if Decimal.isFinite y then some y else none
  else
    let below := (-e).toNat - 1
    some (sink x (min (below / 308) 3) / tenTo (below % 308 + 1))

/-- The floating-point number that a numeral stands for. -/
def float? (n : Numeral) : Option Float :=
  let (significand, e) := n.scaled
  (scale? (Float.ofNat significand) e).map fun x => if n.negative then -x else x

/-- The integer that a numeral stands for, if it is one that fits 64 bits; a zero with a minus sign
is not an integer. -/
def int? (n : Numeral) : Option Int :=
  let magnitude := Text.ofDigits n.whole
  if n.fraction.isEmpty ∧ n.exponent.isNone then
    if n.negative then
      if 0 < magnitude ∧ 2 * magnitude ≤ Text.limit64 then some (-(magnitude : Int)) else none
    else if magnitude < Text.limit64 then some magnitude
    else none
  else none

/-- The floating-point number nearest to what a numeral stands for, integers included. -/
def real? (n : Numeral) : Option Float :=
  match n.int? with
  | some i => some (Float.ofInt i)
  | none => n.float?

end Decimal.Numeral

/-- How a document lays out floating-point numbers: positional from 0.00001 up to below 10^16, whole
numbers with `.0`. -/
def Json.numbers : Format where
  tie := .toEven
  positional point := -4 ≤ point && point ≤ 16
  wholeFraction := true

end TelemetryBands
