import TelemetryBands.Proofs.Clock.Saturation

/-!
# Arithmetic that refuses

Sums, differences, products and quotients of 64-bit numbers that have no result where 64 bits cannot
show it, and none where the divisor is zero. A calculation that is written with them has a result
only if none of its steps leaves the clock.
-/

namespace TelemetryBands

namespace Millis

/-- The sum, if the clock has it. -/
def add? (a b : Millis) : Option Millis :=
  ofInt? (a.val + b.val)

/-- The difference, if the clock has it. -/
def sub? (a b : Millis) : Option Millis :=
  ofInt? (a.val - b.val)

/-- The product, if the clock has it. -/
def mul? (a b : Millis) : Option Millis :=
  ofInt? (a.val * b.val)

/-- The quotient of a division that leaves no negative remainder, if there is one on the clock. -/
def div? (a b : Millis) : Option Millis :=
  if b.val = 0 then none else ofInt? (a.val / b.val)

/-- The quotient cut off towards zero, if there is one on the clock. -/
def quot? (a b : Millis) : Option Millis :=
  if b.val = 0 then none else ofInt? (a.val.tdiv b.val)

/-- What lies on the clock is not refused. -/
theorem exists_ofInt? {n : Int} (hlow : -9223372036854775808 ≤ n)
    (hhigh : n ≤ 9223372036854775807) : ∃ a : Millis, ofInt? n = some a ∧ a.val = n :=
  ⟨⟨n, hlow, hhigh⟩, ofInt?_eq_some_iff.mpr rfl, rfl⟩

/-- A quotient by a positive number lies between the dividend and zero. -/
theorem exists_div? (a : Millis) {b : Millis} (hb : 0 < b.val) :
    ∃ c : Millis, a.div? b = some c ∧ c.val = a.val / b.val := by
  have hlow := a.first_le
  have hhigh := a.le_last
  unfold div?
  rw [if_neg (Int.ne_of_gt hb)]
  rcases Int.lt_or_le a.val 0 with hneg | hnonneg
  · have hquotient : a.val / b.val < 0 := Int.ediv_neg_of_neg_of_pos hneg hb
    have hge : a.val ≤ a.val / b.val := by
      rw [Int.le_ediv_iff_mul_le hb]
      have hone : (1 : Int) ≤ b.val := hb
      have hmul := Int.mul_le_mul_of_nonpos_left (Int.le_of_lt hneg) hone
      rwa [Int.mul_one] at hmul
    exact exists_ofInt? (by omega) (by omega)
  · have hquotient : 0 ≤ a.val / b.val := Int.ediv_nonneg hnonneg (Int.le_of_lt hb)
    have hle : a.val / b.val ≤ a.val := Int.ediv_le_self b.val hnonneg
    exact exists_ofInt? (by omega) (by omega)

end Millis

/-- The next number, if 32 bits can show it. -/
def succ32? (n : UInt32) : Option UInt32 :=
  if n.toNat + 1 < 4294967296 then some (n + 1) else none

theorem succ32?_of_lt {n m : UInt32} (h : n < m) : succ32? n = some (n + 1) := by
  have hm := m.toNat_lt
  rw [UInt32.lt_iff_toNat_lt] at h
  exact if_pos (by omega)

/-- Where no element is refused, the list is not. -/
theorem mapM_eq_some_map {α β : Type} {f : α → Option β} {g : α → β} {l : List α}
    (h : ∀ a ∈ l, f a = some (g a)) : l.mapM f = some (l.map g) := by
  induction l with
  | nil => rfl
  | cons a l ih =>
    obtain ⟨ha, hl⟩ := List.forall_mem_cons.mp h
    rw [List.mapM_cons, ha, ih hl]
    rfl

end TelemetryBands
