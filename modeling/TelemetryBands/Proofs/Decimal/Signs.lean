import TelemetryBands.Clock.Millis
import TelemetryBands.Decimal.Reading
import TelemetryBands.Proofs.Clock.Saturation
import TelemetryBands.Proofs.Decimal.Finiteness

/-!
# Numbers without a minus sign

What is calculated from numbers without a minus sign has none either, and a decimal that is written
without one is read as such a number, however large it is. A number that is not below zero makes no
negative count of milliseconds.
-/

namespace TelemetryBands

namespace Decimal

open Float.Model (UnpackedFloat Format)
open Float.Model.UnpackedFloat

variable {a b f : UnpackedFloat} {x y : Float}

/-- An undefined number, or one without a minus sign. -/
def IsPlain : UnpackedFloat → Prop
  | .zero s | .finite s .. | .infinity s => s = .positive
  | .notANumber => True

/-- A floating-point number that is undefined or has no minus sign. -/
def IsPlainFloat (x : Float) : Prop :=
  IsPlain x.toModel.unpack

theorem isPlain_roundWithAccuracy (m : Nat) (e : Int) (acc : Accuracy) :
    IsPlain (roundWithAccuracy .binary64 .positive m e acc) := by
  rw [roundWithAccuracy_eq]
  simp only
  split <;> rfl

/-- A product of numbers without a minus sign has none. -/
theorem IsPlain.mul (ha : IsPlain a) (hb : IsPlain b) : IsPlain (.mul .binary64 a b) := by
  have hsign : (.positive * .positive : Sign) = .positive := rfl
  cases a <;> cases b <;>
    simp_all [IsPlain, UnpackedFloat.mul]
  exact isPlain_roundWithAccuracy _ _ _

/-- A quotient of numbers without a minus sign has none. -/
theorem IsPlain.div (ha : IsPlain a) (hb : IsPlain b) : IsPlain (.div .binary64 a b) := by
  have hsign : (.positive / .positive : Sign) = .positive := rfl
  cases a <;> cases b <;>
    simp_all [IsPlain, UnpackedFloat.div]
  exact isPlain_roundWithAccuracy _ _ _

/-- The sign of what components stand for is the one they were packed with. -/
theorem isPlain_unpack {bits : BitVec 64} (h : @unpackSign .binary64 bits = 0#1) :
    IsPlain (unpack .binary64 bits) := by
  have hsign : Sign.ofBitVec (@unpackSign .binary64 bits) = .positive := by
    rw [h]
    rfl
  unfold unpack
  simp only [hsign]
  split
  · split
    · rfl
    · trivial
  · split
    · split <;> rfl
    · rfl

theorem isPlain_unpack_pack (h : IsPlain f) : IsPlain (unpack .binary64 (pack .binary64 f)) := by
  cases f with
  | notANumber =>
    have hnan : unpack .binary64 (pack .binary64 .notANumber) = .notANumber := unpack_packedNaN
    rw [hnan]
    trivial
  | infinity s =>
    obtain rfl : s = .positive := h
    have hinf : unpack .binary64 (pack .binary64 (.infinity .positive)) = .infinity .positive :=
      unpack_packedInfinity .positive
    rw [hinf]
    rfl
  | zero s =>
    obtain rfl : s = .positive := h
    have hzero : unpack .binary64 (pack .binary64 (.zero .positive)) = .zero .positive :=
      unpack_packedZero
    rw [hzero]
    rfl
  | finite s m e hm =>
    obtain rfl : s = .positive := h
    apply isPlain_unpack
    unfold pack
    simp only
    split
    · rfl
    · split
      · exact unpackSign_packComponents _ _ _
      · exact unpackSign_packComponents _ _ _

theorem isPlainFloat_ofModel_pack (h : IsPlain f) : IsPlainFloat (.ofModel (.pack f)) :=
  isPlain_unpack_pack h

theorem IsPlainFloat.mul (hx : IsPlainFloat x) (hy : IsPlainFloat y) : IsPlainFloat (x * y) :=
  isPlainFloat_ofModel_pack (IsPlain.mul hx hy)

theorem IsPlainFloat.div (hx : IsPlainFloat x) (hy : IsPlainFloat y) : IsPlainFloat (x / y) :=
  isPlainFloat_ofModel_pack (IsPlain.div hx hy)

/-! ## Decimals -/

theorem unpackSign_powerOfTen : ∀ i : Fin Float.exactlyRepresentablePowersOfTen.size,
    @unpackSign .binary64 Float.exactlyRepresentablePowersOfTen[i].toModel.toBits.toBitVec =
      0#1 := by
  decide +kernel

theorem isPlainFloat_powerOfTen {e : Nat} (h : e < Float.exactlyRepresentablePowersOfTen.size) :
    IsPlainFloat Float.exactlyRepresentablePowersOfTen[e] :=
  isPlain_unpack (unpackSign_powerOfTen ⟨e, h⟩)

theorem isPlain_ofNat (n : Nat) : IsPlain (UnpackedFloat.ofNat .binary64 n) := by
  unfold UnpackedFloat.ofNat UnpackedFloat.ofInt UnpackedFloat.normalize
  split
  · rename_i hlt
    rw [compare_lt_iff_lt] at hlt
    omega
  · rfl
  · exact isPlain_roundWithAccuracy _ _ _

theorem isPlain_ofScientific (n : Nat) (e : Int) :
    IsPlain (UnpackedFloat.ofScientific .binary64 n e) := by
  unfold UnpackedFloat.ofScientific
  split
  · rfl
  · split
    · rfl
    · split
      · rfl
      · split
        · exact IsPlain.mul rfl rfl
        · exact IsPlain.div rfl rfl

theorem isPlainFloat_ofScientific (n : Nat) (negative : Bool) (e : Nat) :
    IsPlainFloat (Float.ofScientific n negative e) := by
  have hword : IsPlainFloat n.toUInt64.toFloat := isPlainFloat_ofModel_pack (isPlain_ofNat _)
  unfold Float.ofScientific
  simp only
  split
  · split
    · exact hword.div (isPlainFloat_powerOfTen _)
    · exact hword.mul (isPlainFloat_powerOfTen _)
  · exact isPlainFloat_ofModel_pack (isPlain_ofScientific _ _)

theorem isPlainFloat_zero : IsPlainFloat 0.0 :=
  isPlainFloat_ofScientific 0 true 1

theorem isPlainFloat_one : IsPlainFloat 1.0 :=
  isPlainFloat_ofScientific 10 true 1

/-- A decimal is read without a minus sign. -/
theorem isPlainFloat_nearest (n : Nat) (e : Int) : IsPlainFloat (nearest n e) := by
  unfold nearest
  simp only
  split
  · exact isPlainFloat_zero
  · split
    · exact isPlainFloat_one.div isPlainFloat_zero
    · split
      · exact isPlainFloat_zero
      · exact isPlainFloat_ofScientific _ _ _

theorem isPlainFloat_of_magnitude? {cs : List Char} (h : magnitude? cs = some x) :
    IsPlainFloat x := by
  unfold magnitude? at h
  simp only at h
  split at h <;>
  · obtain ⟨-, e, -, rfl⟩ := by simpa only [Option.ite_none_left_eq_some,
      Option.map_eq_some_iff] using h
    exact isPlainFloat_nearest _ _

theorem isPlainFloat_of_unsigned? {cs : List Char} (h : unsigned? cs = some x) :
    IsPlainFloat x := by
  unfold unsigned? at h
  simp only at h
  split at h
  · obtain rfl := Option.some.inj h
    exact isPlainFloat_one.div isPlainFloat_zero
  · split at h
    · obtain rfl := Option.some.inj h
      exact isPlainFloat_zero.div isPlainFloat_zero
    · exact isPlainFloat_of_magnitude? h

/-- What is written without a minus sign is read without one. -/
theorem isPlainFloat_of_float? {cs : List Char} (hminus : cs.head? ≠ some '-')
    (h : float? cs = some x) : IsPlainFloat x := by
  unfold float? at h
  split at h
  · exact isPlainFloat_of_unsigned? h
  · exact absurd rfl hminus
  · exact isPlainFloat_of_unsigned? h

/-! ## Counts of milliseconds -/

/-- A number without a minus sign is not below zero. -/
theorem IsPlainFloat.not_lt_zero (h : IsPlainFloat x) : ¬ x < 0.0 := by
  intro hlt
  have hcompare : (x.toModel.unpack.compare (.zero .positive) == some .lt) = true :=
    decide_eq_true_iff.mp hlt
  have hplain : IsPlain x.toModel.unpack := h
  cases hx : x.toModel.unpack with
  | notANumber => rw [hx] at hcompare; cases hcompare
  | infinity s => rw [hx] at hcompare hplain; cases hplain; cases hcompare
  | zero s => rw [hx] at hcompare; cases hcompare
  | finite s m e hm => rw [hx] at hcompare hplain; cases hplain; cases hcompare

theorem toNat_unpackMantissa (x : Float) :
    (@unpackMantissa .binary64 x.toModel.toBits.toBitVec).toNat = x.toBits.toNat % hidden := by
  simp [unpackMantissa, BitVec.extractLsb_toNat]
  rfl

theorem toNat_unpackSign (x : Float) :
    (@unpackSign .binary64 x.toModel.toBits.toBitVec).toNat = x.toBits.toNat >>> 63 := by
  have hlt : x.toBits.toNat >>> 63 < 2 := by
    rw [Nat.shiftRight_eq_div_pow]
    have := x.toBits.toNat_lt
    omega
  rw [← Nat.mod_eq_of_lt hlt]
  simp [unpackSign, BitVec.extractLsb_toNat]
  rfl

theorem unpackExponent_eq_iff (field : BitVec 11) :
    @unpackExponent .binary64 x.toModel.toBits.toBitVec = field ↔
      (x.toBits.toNat >>> 52) % 2048 = field.toNat := by
  rw [← toNat_unpackExponent]
  exact BitVec.toNat_inj.symm

theorem unpackMantissa_eq_zero_iff :
    @unpackMantissa .binary64 x.toModel.toBits.toBitVec = 0#52 ↔ x.toBits.toNat % hidden = 0 := by
  rw [← toNat_unpackMantissa]
  exact BitVec.toNat_inj.symm

theorem sign_of_bit (hbit : (x.toBits.toNat >>> 63 == 1) = true) :
    Sign.ofBitVec (@unpackSign .binary64 x.toModel.toBits.toBitVec) = .negative := by
  rw [beq_iff_eq, ← toNat_unpackSign] at hbit
  have hone : @unpackSign .binary64 x.toModel.toBits.toBitVec = 1#1 := BitVec.eq_of_toNat_eq hbit
  rw [hone]
  rfl

/-- What has a minus sign and is not zero is below zero. -/
theorem lt_zero_of_unpack (h : x.toModel.unpack = .infinity .negative ∨
    ∃ m e hm, x.toModel.unpack = .finite .negative m e hm) : x < 0.0 := by
  have hless : (x.toModel.unpack.compare (.zero .positive) == some .lt) = true := by
    rcases h with hx | ⟨m, e, hm, hx⟩ <;> rw [hx] <;> rfl
  exact decide_eq_true_iff.mpr hless

/-- A number whose parts have a minus sign is below zero, unless it is zero. -/
theorem lt_zero_of_parts :
    (parts x = .infinite true → x < 0.0) ∧
      ∀ b, parts x = .finite true b → b.mantissa ≠ 0 → x < 0.0 := by
  have hones := unpackExponent_eq_iff (x := x) (-1#11)
  have hnone := unpackExponent_eq_iff (x := x) 0#11
  have hzero := unpackMantissa_eq_zero_iff (x := x)
  constructor
  · intro h
    unfold parts at h
    simp only at h
    split at h
    · rename_i hfield
      split at h
      · rename_i hfraction
        have hsign := sign_of_bit (Parts.infinite.inj h)
        refine lt_zero_of_unpack (Or.inl ?_)
        rw [Float.Model.unpack, unpack]
        simp only [if_pos (hones.mpr hfield), if_pos (hzero.mpr hfraction), hsign]
      · cases h
    · split at h <;> cases h
  · intro b h hb
    unfold parts at h
    simp only at h
    split at h
    · split at h <;> cases h
    · rename_i hfield
      split at h
      · rename_i hnofield
        obtain ⟨hnegative, rfl⟩ := Parts.finite.inj h
        refine lt_zero_of_unpack (Or.inr ?_)
        unfold Float.Model.unpack unpack
        simp only [if_neg (mt hones.mp hfield), if_pos (hnone.mpr hnofield),
          dif_neg (mt hzero.mp hb), sign_of_bit hnegative]
        exact ⟨_, _, toNat_unpackMantissa x ▸ Nat.pos_of_ne_zero hb, rfl⟩
      · rename_i hsomefield
        obtain ⟨hnegative, rfl⟩ := Parts.finite.inj h
        refine lt_zero_of_unpack (Or.inr ?_)
        unfold Float.Model.unpack unpack
        simp only [if_neg (mt hones.mp hfield), if_neg (mt hnone.mp hsomefield),
          sign_of_bit hnegative]
        exact ⟨_, _, by rw [toNat_hidden_append]; omega, rfl⟩

end Decimal

/-- A number that is not below zero makes no negative count of milliseconds. -/
theorem Millis.zero_le_ofFloat {x : Float} (h : ¬ x < 0.0) : 0 ≤ ofFloat x := by
  have hclamp : ∀ {n : Int}, 0 ≤ n → 0 ≤ clamp n := by
    intro n hn
    rw [le_def, clamp_eq, zero_val]
    omega
  unfold ofFloat
  split
  · exact hclamp (le_refl 0)
  · rename_i negative hx
    cases negative with
    | true => exact absurd (Decimal.lt_zero_of_parts.1 hx) h
    | false => decide
  · rename_i negative b hx
    apply hclamp
    cases negative with
    | false => exact Int.natCast_nonneg _
    | true =>
      have hmantissa : b.mantissa = 0 := not_not.mp fun hb => h (Decimal.lt_zero_of_parts.2 b hx hb)
      have hround : b.round = 0 := by
        unfold Decimal.Binary.round
        rw [hmantissa]
        split
        · exact Nat.zero_mul _
        · rw [Nat.zero_add]
          exact Nat.div_eq_of_lt (Nat.pow_lt_pow_right (by decide) (Nat.lt_succ_self _))
      rw [hround]
      decide

end TelemetryBands
