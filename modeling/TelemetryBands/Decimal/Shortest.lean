import TelemetryBands.Decimal.Binary
import TelemetryBands.Text.Digits

/-!
# The fewest digits that read back

Every decimal in an interval around a magnitude is read back as that magnitude. `shortest` tries one
significant digit, then two, and so on: on the grid of decimals with that many digits it tests the
two neighbours of the exact value, and the first grid with a hit wins. Everything is compared in
exact natural arithmetic.
-/

namespace TelemetryBands.Decimal

/-- Which of two equally near decimals is taken. -/
inductive Tie where
  /-- The one whose last digit is even. -/
  | toEven
  /-- The greater one. -/
  | up
  deriving DecidableEq, Repr

/-- Significant digits with the place of the point: the value is `0.digits * 10 ^ point`. -/
structure Significant where
  digits : List Char
  point : Int
  deriving DecidableEq, Repr

/-- The numerator and the denominator of `n * 2 ^ twos * 10 ^ tens`. -/
def fractionOf (n : Nat) (twos tens : Int) : Nat × Nat :=
  (n * Nat.pow 2 twos.toNat * Nat.pow 10 tens.toNat,
    Nat.pow 2 (-twos).toNat * Nat.pow 10 (-tens).toNat)

/-- Whether the decimal `n * 10 ^ e` lies in the interval that is read back as `b`; the two ends
belong to it exactly when the mantissa is even. -/
def Binary.readsBack (b : Binary) (n : Nat) (e : Int) : Bool :=
  let low := 4 * b.mantissa - (if b.narrowBelow then 1 else 2)
  let high := 4 * b.mantissa + 2
  let (num, den) := fractionOf n (2 - b.exponent) e
  if b.mantissa % 2 = 0 then low * den ≤ num && num ≤ high * den
  else low * den < num && num < high * den

/-- Whether a magnitude is below a power of ten. -/
def Binary.belowPower (b : Binary) (k : Int) : Bool :=
  let (num, den) := fractionOf b.mantissa b.exponent (-k)
  num < den

/-- The least power of ten above a positive magnitude, found next to an estimate from its binary
logarithm. -/
def Binary.scale (b : Binary) : Int :=
  let estimate := (b.mantissa.log2 + b.exponent) * 30103 / 100000
  (([0, 1, 2].map fun (i : Int) => estimate + i).find? b.belowPower).getD (estimate + 3)

/-- The neighbour of a magnitude with `count` significant digits that reads back as it, the nearer
one if both do. -/
def Binary.onGrid? (b : Binary) (tie : Tie) (k : Int) (count : Nat) : Option (Nat × Int) :=
  let e := k - count
  let (num, den) := fractionOf b.mantissa b.exponent (-e)
  let below := num / den
  let above := below + 1
  match b.readsBack below e, b.readsBack above e with
  | false, false => none
  | true, false => some (below, e)
  | false, true => some (above, e)
  | true, true =>
    let middle := (2 * below + 1) * den
    if 2 * num < middle then some (below, e)
    else if middle < 2 * num then some (above, e)
    else
      match tie with
      | .up => some (above, e)
      | .toEven => some (if below % 2 = 0 then below else above, e)

/-- The exact decimal value of a magnitude. -/
def Binary.exact (b : Binary) : Nat × Int :=
  match b.exponent with
  | .ofNat e => (b.mantissa * Nat.pow 2 e, 0)
  | .negSucc e => (b.mantissa * Nat.pow 5 (e + 1), -(e + 1 : Int))

/-- The digits of `n` without zeros at the end, with the point where `n * 10 ^ e` has it. -/
def significant (n : Nat) (e : Int) : Significant :=
  let ds := Text.digits n
  ⟨(ds.reverse.dropWhile (· == '0')).reverse, ds.length + e⟩

/-- The fewest significant digits that read back as a positive magnitude. -/
def Binary.shortest (b : Binary) (tie : Tie) : Significant :=
  let k := b.scale
  let (n, e) := (((List.range 17).map (· + 1)).findSome? (b.onGrid? tie k)).getD b.exact
  significant n e

end TelemetryBands.Decimal
