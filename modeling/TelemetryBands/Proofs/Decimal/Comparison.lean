import Mathlib
import TelemetryBands.Decimal.Binary

/-!
# The order of floating-point numbers

Numbers are compared by their class, their exponent and their mantissa, so every number that is
defined has a place in a linear order, and the comparisons of two of them are those of their places.
The two zeros share one place. An undefined number is neither less nor greater than another one and
not equal to it.
-/

namespace TelemetryBands.Decimal

open Float.Model (UnpackedFloat)

/-- The place of a number: its class, from the negative infinity over the negative numbers, the
zeros and the positive numbers to the positive infinity, and in its class its exponent and its
mantissa. -/
def placeOf : UnpackedFloat → Int ×ₗ Int ×ₗ Int
  | .infinity .negative => toLex (-2, toLex (0, 0))
  | .finite .negative mantissa exponent _ => toLex (-1, toLex (-exponent, -mantissa))
  | .zero _ => toLex (0, toLex (0, 0))
  | .finite .positive mantissa exponent _ => toLex (1, toLex (exponent, mantissa))
  | .infinity .positive => toLex (2, toLex (0, 0))
  | .notANumber => toLex (3, toLex (0, 0))

/-- The place of a floating-point number. -/
def place (x : Float) : Int ×ₗ Int ×ₗ Int :=
  placeOf x.toModel.unpack

theorem compare_neg_neg (m n : Int) : compare (-m) (-n) = (compare m n).swap := by
  rw [Int.compare_swap, ← cmp_eq_compare, ← cmp_eq_compare]
  exact StrictAnti.cmp_map_eq (fun _ _ => Int.neg_lt_neg) m n

theorem compare_natCast (m n : Nat) : compare (m : Int) n = compare m n := by
  rw [← cmp_eq_compare, ← cmp_eq_compare]
  exact Nat.strictMono_cast.cmp_map_eq m n

/-- Numbers that are defined compare like their places. -/
theorem compare_placeOf {a b : UnpackedFloat} (ha : a.isNaN = false) (hb : b.isNaN = false) :
    a.compare b = some (compare (placeOf a) (placeOf b)) := by
  cases a with
  | notANumber => cases ha
  | infinity s =>
    cases b with
    | notANumber => cases hb
    | infinity t => cases s <;> cases t <;> rfl
    | zero t => cases s <;> rfl
    | finite t m e hm => cases s <;> cases t <;> rfl
  | zero s =>
    cases b with
    | notANumber => cases hb
    | infinity t => cases t <;> rfl
    | zero t => rfl
    | finite t m e hm => cases t <;> rfl
  | finite s m e hm =>
    cases b with
    | notANumber => cases hb
    | infinity t => cases s <;> cases t <;> rfl
    | zero t => cases s <;> rfl
    | finite t n f hn =>
      -- Only numbers of one sign are compared further, the negative ones the other way round.
      cases s <;> cases t
      · have hplaces : compare (placeOf (.finite .negative m e hm))
            (placeOf (.finite .negative n f hn)) =
              (compare (-e) (-f)).then (compare (-m : Int) (-n)) := rfl
        rw [hplaces, compare_neg_neg, compare_neg_neg, compare_natCast, ← Ordering.swap_then]
        rfl
      · rfl
      · rfl
      · have hplaces : compare (placeOf (.finite .positive m e hm))
            (placeOf (.finite .positive n f hn)) =
              (compare e f).then (compare (m : Int) n) := rfl
        rw [hplaces, compare_natCast]
        rfl

variable {x y : Float}

theorem compare_place (hx : x.isNaN = false) (hy : y.isNaN = false) :
    x.toModel.unpack.compare y.toModel.unpack = some (compare (place x) (place y)) :=
  compare_placeOf hx hy

theorem lt_iff_place (hx : x.isNaN = false) (hy : y.isNaN = false) :
    x < y ↔ place x < place y := by
  have hlt : x < y ↔ (x.toModel.unpack.compare y.toModel.unpack == some .lt) = true :=
    decide_eq_true_iff
  rw [hlt, compare_place hx hy, beq_iff_eq, Option.some.injEq]
  exact compare_lt_iff_lt

theorem le_iff_place (hx : x.isNaN = false) (hy : y.isNaN = false) :
    x ≤ y ↔ place x ≤ place y := by
  have hle : x ≤ y ↔
      Option.any (fun o => o.isLE) (x.toModel.unpack.compare y.toModel.unpack) = true :=
    decide_eq_true_iff
  rw [hle, compare_place hx hy, Option.any_some, Ordering.isLE_iff_ne_gt]
  exact compare_le_iff_le

theorem beq_iff_place (hx : x.isNaN = false) (hy : y.isNaN = false) :
    (x == y) = true ↔ place x = place y := by
  have hbeq : (x == y) = true ↔
      (x.toModel.unpack.compare y.toModel.unpack == some .eq) = true := Iff.rfl
  rw [hbeq, compare_place hx hy, beq_iff_eq, Option.some.injEq]
  exact compare_eq_iff_eq

theorem compare_notANumber (a : UnpackedFloat) : a.compare .notANumber = none := by
  cases a <;> rfl

/-- Numbers that are less than or equal to each other are defined. -/
theorem isNaN_of_le (h : x ≤ y) : x.isNaN = false ∧ y.isNaN = false := by
  have hle : Option.any (fun o => o.isLE)
      (x.toModel.unpack.compare y.toModel.unpack) = true := decide_eq_true_iff.mp h
  constructor
  · refine Bool.eq_false_iff.mpr fun hnan => ?_
    rw [UnpackedFloat.isNaN_iff.mp hnan] at hle
    cases hle
  · refine Bool.eq_false_iff.mpr fun hnan => ?_
    rw [UnpackedFloat.isNaN_iff.mp hnan, compare_notANumber] at hle
    cases hle

theorem parts_of_isNaN (h : x.isNaN = true) : parts x = .nan := by
  have hnan : x = Float.nan := by simpa [Float.isNaN_eq_decide_eq_nan] using h
  rw [hnan]
  decide +kernel

/-- Finite numbers are defined. -/
theorem isNaN_of_isFinite (h : isFinite x = true) : x.isNaN = false := by
  refine Bool.eq_false_iff.mpr fun hnan => ?_
  rw [isFinite, parts_of_isNaN hnan] at h
  cases h

end TelemetryBands.Decimal
