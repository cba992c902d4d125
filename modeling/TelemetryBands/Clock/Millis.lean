import TelemetryBands.Collections.OrderedMap
import TelemetryBands.Decimal.Binary

/-!
# Milliseconds on a bounded clock

Instants and durations are whole milliseconds that fit 64 bits with a sign. The bounds are part of
the type, so a sum or a difference comes back into it either by `clamp`, which stops at the ends of
the clock, or by `ofInt?`, which refuses what lies outside.
-/

namespace TelemetryBands

/-- A number of milliseconds on the clock: an instant after the epoch, or a duration. -/
structure Millis where
  val : Int
  first_le : -9223372036854775808 ≤ val := by omega
  le_last : val ≤ 9223372036854775807 := by omega
  deriving DecidableEq

namespace Millis

/-- The first instant of the clock. -/
def first : Millis :=
  ⟨-9223372036854775808, by decide, by decide⟩

/-- The last instant of the clock. -/
def last : Millis :=
  ⟨9223372036854775807, by decide, by decide⟩

@[ext] theorem ext {a b : Millis} (h : a.val = b.val) : a = b := by
  cases a; cases b; simp_all

instance : LE Millis := ⟨fun a b => a.val ≤ b.val⟩

instance : LT Millis := ⟨fun a b => a.val < b.val⟩

instance (a b : Millis) : Decidable (a ≤ b) := inferInstanceAs (Decidable (a.val ≤ b.val))

instance (a b : Millis) : Decidable (a < b) := inferInstanceAs (Decidable (a.val < b.val))

theorem le_def {a b : Millis} : a ≤ b ↔ a.val ≤ b.val := Iff.rfl

theorem lt_def {a b : Millis} : a < b ↔ a.val < b.val := Iff.rfl

instance : Ranked Millis where
  rank := val
  rank_inj := ext

/-- The instant nearest to an integer. -/
def clamp (n : Int) : Millis :=
  if h : n < -9223372036854775808 then first
  else if h' : 9223372036854775807 < n then last
  else ⟨n, by omega, by omega⟩

/-- The instant of an integer, if the clock has it. -/
def ofInt? (n : Int) : Option Millis :=
  if h : -9223372036854775808 ≤ n ∧ n ≤ 9223372036854775807 then some ⟨n, h.1, h.2⟩ else none

instance (n : Nat) : OfNat Millis n := ⟨clamp n⟩

instance : Inhabited Millis := ⟨0⟩

instance : Repr Millis where
  reprPrec a p := reprPrec a.val p

instance : ToString Millis := ⟨fun a => toString a.val⟩

theorem clamp_of_mem {n : Int} (h : -9223372036854775808 ≤ n) (h' : n ≤ 9223372036854775807) :
    (clamp n).val = n := by
  unfold clamp
  split
  · omega
  · split
    · omega
    · rfl

@[simp] theorem clamp_val (a : Millis) : clamp a.val = a :=
  ext (clamp_of_mem a.first_le a.le_last)

/-- The later of two instants. -/
def later (a b : Millis) : Millis :=
  if a ≤ b then b else a

/-- Addition that stops at the ends of the clock. -/
def satAdd (a b : Millis) : Millis :=
  clamp (a.val + b.val)

/-- Subtraction that stops at the ends of the clock. -/
def satSub (a b : Millis) : Millis :=
  clamp (a.val - b.val)

/-- The number of milliseconds nearest to a floating-point number; a half goes away from zero, and
an undefined number counts as zero. -/
def ofFloat (x : Float) : Millis :=
  match Decimal.parts x with
  | .nan => 0
  | .infinite negative => if negative then first else last
  | .finite negative b => clamp (if negative then -(b.round : Int) else b.round)

end Millis

end TelemetryBands
