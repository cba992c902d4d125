import TelemetryBands.Clock.Millis

/-!
# Saturating arithmetic in integers

Sums and differences on the bounded clock, said in the integers behind them, so that questions about
instants become questions of linear arithmetic.
-/

namespace TelemetryBands.Millis

@[simp] theorem zero_val : (0 : Millis).val = 0 := rfl

@[simp] theorem first_val : first.val = -9223372036854775808 := rfl

@[simp] theorem last_val : last.val = 9223372036854775807 := rfl

/-- Instants that are not behind each other are one. -/
theorem le_antisymm {a b : Millis} (h : a ≤ b) (h' : b ≤ a) : a = b :=
  ext (Int.le_antisymm h h')

theorem le_of_not_le {a b : Millis} (h : ¬ a ≤ b) : b ≤ a := by
  rw [le_def] at *
  omega

/-- Clamping takes the nearest integer between the ends of the clock. -/
theorem clamp_eq (n : Int) :
    (clamp n).val = max (-9223372036854775808) (min n 9223372036854775807) := by
  unfold clamp
  split
  · simp only [first_val]
    omega
  · split
    · simp only [last_val]
      omega
    · simp only
      omega

/-- A saturating sum is the sum, cut off at the ends of the clock. -/
theorem satAdd_val (a b : Millis) :
    (a.satAdd b).val = max (-9223372036854775808) (min (a.val + b.val) 9223372036854775807) :=
  clamp_eq _

/-- A saturating difference is the difference, cut off at the ends of the clock. -/
theorem satSub_val (a b : Millis) :
    (a.satSub b).val = max (-9223372036854775808) (min (a.val - b.val) 9223372036854775807) :=
  clamp_eq _

/-- The later of two instants is the greater integer. -/
theorem later_val (a b : Millis) : (a.later b).val = max a.val b.val := by
  unfold later
  split <;> simp only [le_def] at * <;> omega

/-- Taking the same lateness off keeps instants in their order. -/
theorem satSub_mono {a b : Millis} (h : a ≤ b) (c : Millis) : a.satSub c ≤ b.satSub c := by
  simp only [le_def, satSub_val] at *
  omega

/-- The clock has exactly the integers that are the value of an instant. -/
theorem ofInt?_eq_some_iff {n : Int} {t : Millis} : ofInt? n = some t ↔ t.val = n := by
  have hlow := t.first_le
  have hhigh := t.le_last
  unfold ofInt?
  split
  · rename_i h
    rw [Option.some.injEq, Millis.ext_iff]
    exact eq_comm
  · simp only [reduceCtorEq, false_iff]
    omega

end TelemetryBands.Millis
