import TelemetryBands.Decimal.Shortest

/-!
# Decimal numerals

A numeral as it is written: a sign, digits before the point, digits after it, and a power of ten.
A `Format` decides how the shortest digits of a number are laid out as a numeral.
-/

namespace TelemetryBands.Decimal

/-- A power of ten as it is written after the mark `e`. -/
structure Exponent where
  negative : Bool
  digits : List Char
  deriving DecidableEq, Repr

/-- A decimal numeral as it is written. -/
structure Numeral where
  negative : Bool
  whole : List Char
  /-- The digits after the point; without any there is no point. -/
  fraction : List Char
  exponent : Option Exponent
  deriving DecidableEq, Repr

/-- The text of a power of ten, always with its sign. -/
def Exponent.chars (e : Exponent) : List Char :=
  'e' :: (if e.negative then '-' else '+') :: e.digits

/-- The text of a numeral. -/
def Numeral.chars (n : Numeral) : List Char :=
  (if n.negative then ['-'] else []) ++ n.whole
    ++ (if n.fraction.isEmpty then [] else '.' :: n.fraction)
    ++ (n.exponent.elim [] Exponent.chars)

/-- The numeral of an integer. -/
def Numeral.ofInt (n : Int) : Numeral :=
  ⟨n < 0, Text.digits n.natAbs, [], none⟩

/-- How numbers are laid out. -/
structure Format where
  /-- Which of two equally near shortest decimals is taken. -/
  tie : Tie
  /-- The places of the point that are written without a power of ten. -/
  positional : Int → Bool
  /-- Whether a whole number without a power of ten ends in `.0`. -/
  wholeFraction : Bool

/-- The digits without a power of ten. -/
def Format.plain (f : Format) (negative : Bool) (s : Significant) : Numeral :=
  let whole := s.digits.take s.point.toNat
  let fraction := s.digits.drop s.point.toNat
  let padding := List.replicate (s.point - s.digits.length).toNat '0'
  { negative
    whole := if s.point ≤ 0 then ['0'] else whole ++ padding
    fraction :=
      if s.point ≤ 0 then List.replicate (-s.point).toNat '0' ++ s.digits
      else if fraction.isEmpty && f.wholeFraction then ['0']
      else fraction
    exponent := none }

/-- One digit before the point, the others after it, and a power of ten. -/
def scientific (negative : Bool) (s : Significant) : Numeral :=
  let power := s.point - 1
  { negative
    whole := s.digits.take 1
    fraction := s.digits.drop 1
    exponent := some ⟨power < 0, Text.digits power.natAbs⟩ }

/-- The numeral of a finite magnitude with a sign; zero has the single digit `0`. -/
def Format.numeral (f : Format) (negative : Bool) (b : Binary) : Numeral :=
  let s := if b.mantissa = 0 then ⟨['0'], 1⟩ else b.shortest f.tie
  if f.positional s.point then f.plain negative s else scientific negative s

/-- Numbers inside messages: always positional, and a whole number without a point. -/
def inMessages : Format where
  tie := .up
  positional := fun _ => true
  wholeFraction := false

/-- The text of a number inside a message. -/
def message (x : Float) : String :=
  match parts x with
  | .nan => "NaN"
  | .infinite negative => if negative then "-inf" else "inf"
  | .finite negative b => String.ofList (inMessages.numeral negative b).chars

end TelemetryBands.Decimal
