/-!
# Binary floating-point numbers as exact products

A finite floating-point number is a sign and a product `mantissa * 2 ^ exponent` of integers. This
module takes a `Float` apart into that form and rounds it to an integer in exact arithmetic.
-/

namespace TelemetryBands.Decimal

/-- A finite magnitude, `mantissa * 2 ^ exponent`. -/
structure Binary where
  mantissa : Nat
  exponent : Int
  /-- The gap to the magnitude below is half the gap to the magnitude above. -/
  narrowBelow : Bool
  deriving DecidableEq, Repr

/-- What the bits of a floating-point number stand for. -/
inductive Parts where
  | nan
  | infinite (negative : Bool)
  | finite (negative : Bool) (magnitude : Binary)
  deriving DecidableEq, Repr

/-- Two to the power of 52: the bit of the mantissa that the fraction field leaves out. -/
def hidden : Nat := 4503599627370496

/-- Takes a floating-point number apart into sign, exponent field and fraction field. -/
def parts (x : Float) : Parts :=
  let bits : Nat := x.toBits.toNat
  let negative := bits >>> 63 == 1
  let field : Nat := (bits >>> 52) % 2048
  let fraction : Nat := bits % hidden
  if field = 2047 then
    if fraction = 0 then .infinite negative else .nan
  else if field = 0 then
    .finite negative ⟨fraction, -1074, false⟩
  else
    .finite negative ⟨fraction + hidden, (field : Int) - 1075, fraction == 0 && field > 1⟩

/-- Whether a number is neither infinite nor undefined. -/
def isFinite (x : Float) : Bool :=
  match parts x with
  | .finite _ _ => true
  | _ => false

/-- Whether a number carries the minus sign, zero and infinity included. -/
def isNegative (x : Float) : Bool :=
  match parts x with
  | .nan => false
  | .infinite negative => negative
  | .finite negative _ => negative

/-- The nearest natural number; a half goes up. -/
def Binary.round (b : Binary) : Nat :=
  match b.exponent with
  | .ofNat e => b.mantissa * Nat.pow 2 e
  | .negSucc e => (b.mantissa + Nat.pow 2 e) / Nat.pow 2 (e + 1)

end TelemetryBands.Decimal
