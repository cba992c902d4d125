import TelemetryBands.Proofs.Decimal.Rounding

/-!
# Finite results

Which calculations with floating-point numbers stay finite: counts, products and quotients of
counts, and the quotient of a finite number by a count. A quotient of a number that is not finite is
never finite.
-/

namespace TelemetryBands.Decimal

open Float.Model (UnpackedFloat Format)
open Float.Model.UnpackedFloat

variable {x y : Float}

theorem isFinite_iff_field : isFinite x = true ↔ (x.toBits.toNat >>> 52) % 2048 ≠ 2047 := by
  unfold isFinite parts
  by_cases hfield : (x.toBits.toNat >>> 52) % 2048 = 2047
  · by_cases hfraction : x.toBits.toNat % hidden = 0 <;> simp [hfield, hfraction]
  · by_cases hzero : (x.toBits.toNat >>> 52) % 2048 = 0 <;> simp [hfield, hzero]

theorem toNat_unpackExponent (x : Float) :
    (@unpackExponent .binary64 x.toModel.toBits.toBitVec).toNat =
      (x.toBits.toNat >>> 52) % 2048 := by
  simp [unpackExponent, BitVec.extractLsb_toNat]
  rfl

/-- A floating-point number is finite if what its bits are unpacked to is. -/
theorem isFinite_iff : isFinite x = true ↔ x.toModel.unpack.isFinite = true := by
  have hfield := toNat_unpackExponent x
  rw [isFinite_iff_field, Float.Model.unpack, isFinite_unpack_iff, ← hfield]
  exact not_congr ⟨fun h => BitVec.eq_of_toNat_eq h, fun h => by rw [h]; rfl⟩

/-- What is not too great makes a finite floating-point number. -/
theorem isFinite_ofModel_pack {f : UnpackedFloat} (h : Storable f) :
    isFinite (.ofModel (.pack f)) = true :=
  isFinite_iff.mpr (isFinite_unpack_pack h)

/-- A finite number unpacks to a zero or to a mantissa of at most 53 bits with an exponent that the
format has. -/
theorem unpack_cases (h : isFinite x = true) :
    (∃ s, x.toModel.unpack = .zero s) ∨ ∃ s m e hm, x.toModel.unpack = .finite s m e hm ∧
      m < 2 ^ 53 ∧ -1074 ≤ e ∧ e ≤ 971 :=
  unpack_of_isFinite (isFinite_iff.mp h)

theorem isFinite_neg (h : isFinite x = true) : isFinite (-x) = true := by
  refine isFinite_ofModel_pack (f := x.toModel.unpack.neg) ?_
  rcases unpack_cases h with ⟨s, hx⟩ | ⟨s, m, e, hm, hx, -, -, he⟩
  · rw [hx]
    trivial
  · rw [hx]
    exact he

/-- A number that is not finite is an infinity or undefined. -/
theorem unpack_of_not_isFinite (h : isFinite x = false) :
    (∃ s, x.toModel.unpack = .infinity s) ∨ x.toModel.unpack = .notANumber := by
  rw [← Bool.not_eq_true, isFinite_iff] at h
  cases hx : x.toModel.unpack with
  | infinity s => exact .inl ⟨s, rfl⟩
  | notANumber => exact .inr rfl
  | zero s => exact absurd (by rw [hx]; rfl) h
  | finite s m e hm => exact absurd (by rw [hx]; rfl) h

theorem unpack_packedInfinity (s : Sign) :
    unpack .binary64 (packedInfinity .binary64 s) = .infinity s := by
  simp [unpack, packedInfinity]

/-- No divisor makes a finite quotient of a number that is not finite. -/
theorem isFinite_div_of_not_isFinite (h : isFinite x = false) : isFinite (x / y) = false := by
  have hpack : ∀ f : UnpackedFloat, (∃ s, f = .infinity s) ∨ f = .notANumber →
      isFinite (.ofModel (.pack f)) = false := by
    intro f hf
    rw [← Bool.not_eq_true, isFinite_iff]
    rcases hf with ⟨s, rfl⟩ | rfl
    · show ¬ (unpack .binary64 (packedInfinity .binary64 s)).isFinite = true
      rw [unpack_packedInfinity]
      exact Bool.false_ne_true
    · show ¬ (unpack .binary64 (packedNaN .binary64)).isFinite = true
      rw [unpack_packedNaN]
      exact Bool.false_ne_true
  refine hpack (.div .binary64 x.toModel.unpack y.toModel.unpack) ?_
  rcases unpack_of_not_isFinite h with ⟨s, hx⟩ | hx
  · rw [hx]
    cases y.toModel.unpack with
    | infinity t => exact .inr rfl
    | notANumber => exact .inr rfl
    | zero t => exact .inl ⟨_, rfl⟩
    | finite t m e hm => exact .inl ⟨_, rfl⟩
  · rw [hx]
    exact .inr rfl

/-! ## Normal numbers -/

/-- A positive number with a full mantissa and an exponent between two bounds. -/
def IsNormalFloat (low high : Int) (x : Float) : Prop :=
  IsNormal low high x.toModel.unpack

variable {low low' high high' : Int}

theorem IsNormal.mono {f : UnpackedFloat} (h : IsNormal low high f) (hlow : low' ≤ low)
    (hhigh : high ≤ high') : IsNormal low' high' f := by
  obtain ⟨m, e, hm, hf, hmlow, hmhigh, helow, hehigh⟩ := h
  exact ⟨m, e, hm, hf, hmlow, hmhigh, by omega, by omega⟩

theorem isNormalFloat_ofModel_pack {f : UnpackedFloat} (h : IsNormal low high f)
    (hlow : -1074 ≤ low) (hhigh : high ≤ 971) :
    IsNormalFloat low high (.ofModel (.pack f)) := by
  have hunpack : Float.Model.unpack (.pack f) = f := unpack_pack_of_isNormal h hlow hhigh
  unfold IsNormalFloat
  rwa [hunpack]

theorem IsNormalFloat.isFinite (h : IsNormalFloat low high x) : isFinite x = true := by
  obtain ⟨m, e, hm, hx, -⟩ := h
  rw [isFinite_iff, hx]
  rfl

theorem log2_bounds {m k : Nat} (hlow : 2 ^ k ≤ m) (l : Nat) (hhigh : m < 2 ^ l) :
    k ≤ m.log2 ∧ m.log2 < l := by
  have hne : m ≠ 0 := by
    have := Nat.two_pow_pos k
    omega
  exact ⟨(Nat.le_log2 hne).mpr hlow, (Nat.log2_lt hne).mpr hhigh⟩

/-- Products of full mantissas have 105 or 106 bits. -/
theorem IsNormalFloat.mul (hx : IsNormalFloat low high x) (hy : IsNormalFloat low' high' y)
    (hlow : -1074 ≤ low + low' + 52) (hhigh : high + high' + 54 ≤ 971) :
    IsNormalFloat (low + low' + 52) (high + high' + 54) (x * y) := by
  obtain ⟨m, e, hm, hx, hmlow, hmhigh, helow, hehigh⟩ := hx
  obtain ⟨n, f, hn, hy, hnlow, hnhigh, hflow, hfhigh⟩ := hy
  have hprod : x * y = .ofModel (.pack (.mul .binary64 x.toModel.unpack y.toModel.unpack)) := rfl
  obtain ⟨hbits, hbits'⟩ := log2_bounds (m := m * n) (k := 104)
    (by calc 2 ^ 104 = 2 ^ 52 * 2 ^ 52 := by norm_num
        _ ≤ m * n := Nat.mul_le_mul hmlow hnlow) 106
    (by calc m * n < 2 ^ 53 * 2 ^ 53 := Nat.mul_lt_mul'' hmhigh hnhigh
        _ = 2 ^ 106 := by norm_num)
  rw [hprod, hx, hy]
  have hround := isNormal_roundWithAccuracy (m := m * n) (e := e + f) .exact (by omega) (by omega)
  exact isNormalFloat_ofModel_pack (hround.mono (by omega) (by omega)) hlow hhigh

/-- The exponent to which a quotient is calculated. -/
def quotientExponent (m : Nat) (e : Int) (n : Nat) (f : Int) : Int :=
  min (e - f) (max (m.log2 + e - (n.log2 + f) - 53) (-1074))

theorem divCore_eq (m : Nat) (e : Int) (n : Nat) (f : Int) :
    divCore .binary64 m e n f =
      (m * 2 ^ (e - f - quotientExponent m e n f).toNat / n, quotientExponent m e n f,
        accuracyOfFraction (m * 2 ^ (e - f - quotientExponent m e n f).toNat % n) n) := by
  have htarget : min (e - f) (Format.binary64.targetExponent
      (Float.Model.totalExponent m e - Float.Model.totalExponent n f)) =
        quotientExponent m e n f := by
    simp only [Format.targetExponent, Float.Model.totalExponent, Format.mantissaBits,
      Format.minExponent, quotientExponent]
    norm_num
    congr 2
    omega
  simp only [divCore, htarget, Nat.shiftLeft_eq]

/-- The quotient of full mantissas is calculated to 53 or 54 bits. -/
theorem IsNormalFloat.div (hx : IsNormalFloat low high x) (hy : IsNormalFloat low' high' y)
    (hlow : -1074 ≤ low - high' - 53) (hhigh : high - low' - 51 ≤ 971) :
    IsNormalFloat (low - high' - 53) (high - low' - 51) (x / y) := by
  obtain ⟨m, e, hm, hx, hmlow, hmhigh, helow, hehigh⟩ := hx
  obtain ⟨n, f, hn, hy, hnlow, hnhigh, hflow, hfhigh⟩ := hy
  have hquot : x / y = .ofModel (.pack (.div .binary64 x.toModel.unpack y.toModel.unpack)) := rfl
  have hmlog : m.log2 = 52 := (Nat.log2_eq_iff (by omega)).mpr ⟨hmlow, hmhigh⟩
  have hnlog : n.log2 = 52 := (Nat.log2_eq_iff (by omega)).mpr ⟨hnlow, hnhigh⟩
  have hexponent : quotientExponent m e n f = e - f - 53 := by
    rw [quotientExponent, hmlog, hnlog]
    omega
  have hshift : (e - f - (e - f - 53)).toNat = 53 := by omega
  obtain ⟨hbits, hbits'⟩ := log2_bounds (m := m * 2 ^ 53 / n) (k := 52)
    ((Nat.le_div_iff_mul_le (by omega)).mpr (by omega)) 54
    (Nat.div_lt_of_lt_mul (by omega))
  rw [hquot, hx, hy]
  simp only [UnpackedFloat.div, divCore_eq, hexponent, hshift]
  have hround := isNormal_roundWithAccuracy (m := m * 2 ^ 53 / n) (e := e - f - 53)
    (accuracyOfFraction (m * 2 ^ 53 % n) n) (by omega) (by omega)
  exact isNormalFloat_ofModel_pack (hround.mono (by omega) (by omega)) hlow hhigh

/-! ## Counts -/

theorem log2_mul_two_pow {n : Nat} (hpos : 0 < n) (k : Nat) :
    (n * 2 ^ k).log2 = n.log2 + k := by
  have hne : n ≠ 0 := by omega
  have hk := Nat.two_pow_pos k
  refine (Nat.log2_eq_iff (Nat.mul_ne_zero hne hk.ne')).mpr ⟨?_, ?_⟩
  · rw [Nat.pow_add]
    exact Nat.mul_le_mul_right _ (Nat.log2_self_le hne)
  · rw [show n.log2 + k + 1 = n.log2 + 1 + k by omega, Nat.pow_add]
    exact Nat.mul_lt_mul_of_pos_right Nat.lt_log2_self hk

/-- A count, with as many zero bits behind it as make a full mantissa, is rounded to a number from 1
to 2^64. -/
theorem isNormal_roundWithAccuracy_count {n k : Nat} (hpos : 0 < n) (hlt : n < 2 ^ 64)
    (hfull : 52 ≤ n.log2 + k) :
    IsNormal (-52) 12 (roundWithAccuracy .binary64 .positive (n * 2 ^ k) (-k) .exact) := by
  have hbits := log2_lt_of_lt hlt (by decide)
  have hlog := log2_mul_two_pow hpos k
  have hround := isNormal_roundWithAccuracy (m := n * 2 ^ k) (e := -k) .exact (by omega) (by omega)
  exact hround.mono (by omega) (by omega)

theorem isNormal_ofNat {n : Nat} (hpos : 0 < n) (hlt : n < 2 ^ 64) :
    IsNormal (-52) 12 (UnpackedFloat.ofNat .binary64 n) := by
  have hcompare : compare (n : Int) 0 = .gt := compare_gt_iff_gt.mpr (by omega)
  have hround : UnpackedFloat.ofNat .binary64 n = roundWithAccuracy .binary64 .positive
      (n * 2 ^ (52 - n.log2)) (-((52 - n.log2 : Nat) : Int)) .exact := by
    have hzeros : (-max ((n.log2 : Int) + 1 + 0 - 53) (-1074)).toNat = 52 - n.log2 := by omega
    unfold UnpackedFloat.ofNat UnpackedFloat.ofInt UnpackedFloat.normalize
    rw [hcompare]
    simp only [Int.toNat_natCast, UnpackedFloat.round, targetExponent_eq, decreaseExponent, hzeros,
      Nat.shiftLeft_eq, zero_sub]
  rw [hround]
  exact isNormal_roundWithAccuracy_count hpos hlt (by omega)

theorem isNormalFloat_one : IsNormalFloat (-52) (-52) (Float.ofBits 0x3FF0000000000000) := by
  have hone : Float.ofBits 0x3FF0000000000000 =
      .ofModel (.pack (.finite .positive (2 ^ 52) (-52) (by decide))) := by
    decide +kernel
  rw [hone]
  exact isNormalFloat_ofModel_pack ⟨2 ^ 52, -52, by decide, rfl, by decide, by decide, by decide,
    by decide⟩ (by decide) (by decide)

/-- A count below 2^64 is a number from 1 to 2^67. -/
theorem isNormalFloat_ofNat {n : Nat} (hpos : 0 < n) (hlt : n < 2 ^ 64) :
    IsNormalFloat (-52) 14 (Float.ofNat n) := by
  unfold Float.ofNat OfScientific.ofScientific instOfScientificFloat Float.ofScientific
  simp only
  split
  · have hword : n.toUInt64.toNat = n := by
      rw [Nat.toUInt64, UInt64.toNat_ofNat', Nat.mod_eq_of_lt hlt]
    have hcount : IsNormalFloat (-52) 12 n.toUInt64.toFloat := by
      refine isNormalFloat_ofModel_pack (f := .ofNat .binary64 n.toUInt64.toNat) ?_ (by decide)
        (by decide)
      rw [hword]
      exact isNormal_ofNat hpos hlt
    exact hcount.mul isNormalFloat_one (by decide) (by decide)
  · have hmodel : Float.Model.ofScientific n 0 =
        .pack (roundWithAccuracy .binary64 .positive (n * 2 ^ 53) (-((53 : Nat) : Int))
          .exact) := by
      have hne : n ≠ 0 := by omega
      unfold Float.Model.ofScientific UnpackedFloat.ofScientific
      rw [dif_neg hne, if_neg (by decide), if_neg, if_pos (by decide)]
      · simp only [UnpackedFloat.mul, Nat.shiftLeft_eq, Int.toNat_zero, Nat.pow_zero, Nat.mul_one,
          Int.add_zero]
        rfl
      · have hwidth : (0 : Int) ≤ 2 ^ Format.binary64.exponentBits := by decide
        omega
    have hround := isNormal_roundWithAccuracy_count (k := 53) hpos hlt (by omega)
    have hwide := IsNormal.mono hround (le_refl _) (by decide : (12 : Int) ≤ 14)
    have hnormal := isNormalFloat_ofModel_pack hwide (by decide) (by decide)
    rw [← hmodel] at hnormal
    exact hnormal

theorem isFinite_ofNat {n : Nat} (hlt : n < 2 ^ 64) : isFinite (Float.ofNat n) = true := by
  rcases Nat.eq_zero_or_pos n with rfl | hpos
  · decide +kernel
  · exact (isNormalFloat_ofNat hpos hlt).isFinite

/-- Every 64-bit integer makes a finite number. -/
theorem isFinite_ofInt (n : Int64) : isFinite (Float.ofInt n.toInt) = true := by
  have hlow := n.le_toInt
  have hhigh := n.toInt_lt
  cases hn : n.toInt with
  | ofNat k =>
    rw [hn, Int.ofNat_eq_natCast] at hhigh
    exact isFinite_ofNat (by omega)
  | negSucc k => exact isFinite_neg (isFinite_ofNat (by omega))

theorem isNormalFloat_hundred : IsNormalFloat (-46) (-46) 100.0 := by
  have hhundred : (100.0 : Float) =
      .ofModel (.pack (.finite .positive 7036874417766400 (-46) (by decide))) := by
    decide +kernel
  rw [hhundred]
  exact isNormalFloat_ofModel_pack ⟨_, -46, by decide, rfl, by decide, by decide, by decide,
    by decide⟩ (by decide) (by decide)

/-- The percentage that a count is of another one is finite. -/
theorem isFinite_percentage {k n : Nat} (hk : k < 2 ^ 64) (hpos : 0 < n) (hn : n < 2 ^ 64) :
    isFinite (Float.ofNat k * 100.0 / Float.ofNat n) = true := by
  have hcount := isNormalFloat_ofNat hpos hn
  rcases Nat.eq_zero_or_pos k with rfl | hkpos
  · have hzero : Float.ofNat 0 * 100.0 = 0.0 := by decide +kernel
    obtain ⟨m, e, hm, hcount, -⟩ := hcount
    have hquot : (0.0 : Float) / Float.ofNat n = .ofModel (.pack (.div .binary64
      (0.0 : Float).toModel.unpack (Float.ofNat n).toModel.unpack)) := rfl
    have hunpack : (0.0 : Float).toModel.unpack = .zero .positive := by rfl
    rw [hzero, hquot, hcount, hunpack]
    exact isFinite_ofModel_pack trivial
  · have hproduct :=
      (isNormalFloat_ofNat hkpos hk).mul isNormalFloat_hundred (by decide) (by decide)
    exact (hproduct.div hcount (by decide) (by decide)).isFinite

/-- A quotient that was cut off lies strictly below every bound on the exact one. -/
theorem quotient_bounds {a b d : Nat} (h : a ≤ b * d) :
    a / d ≤ b ∧ (accuracyOfFraction (a % d) d ≠ .exact → a / d < b) := by
  refine ⟨Nat.div_le_of_le_mul (by rwa [Nat.mul_comm]), fun hacc => ?_⟩
  have hrest : a % d ≠ 0 := by
    intro hzero
    rw [accuracyOfFraction, if_pos hzero] at hacc
    exact hacc rfl
  have hsplit := Nat.div_add_mod a d
  refine Nat.lt_of_mul_lt_mul_left (a := d) ?_
  rw [Nat.mul_comm d b]
  omega

/-- A finite number divided by a count of at least one is finite. -/
theorem isFinite_div_ofNat {n : Nat} (hx : isFinite x = true) (hpos : 0 < n) (hlt : n < 2 ^ 64) :
    isFinite (x / Float.ofNat n) = true := by
  obtain ⟨d, f, hd, hcount, hdlow, hdhigh, hflow, hfhigh⟩ := isNormalFloat_ofNat hpos hlt
  have hquot : x / Float.ofNat n =
      .ofModel (.pack (.div .binary64 x.toModel.unpack (Float.ofNat n).toModel.unpack)) := rfl
  rw [hquot, hcount]
  rcases unpack_cases hx with ⟨s, hx⟩ | ⟨s, m, e, hm, hx, hmhigh, helow, hehigh⟩
  · rw [hx]
    exact isFinite_ofModel_pack trivial
  · have hdlog : d.log2 = 52 := (Nat.log2_eq_iff (by omega)).mpr ⟨hdlow, hdhigh⟩
    have hmlog := log2_lt_of_lt hmhigh (by decide)
    have hexponent : quotientExponent m e d f ≤ e ∧ quotientExponent m e d f ≤ e - f := by
      rw [quotientExponent, hdlog]
      omega
    rw [hx]
    simp only [UnpackedFloat.div, divCore_eq]
    generalize quotientExponent m e d f = t at *
    have hscale : 2 ^ (e - f - t).toNat ≤ 2 ^ (e - t).toNat * d :=
      calc 2 ^ (e - f - t).toNat
          ≤ 2 ^ ((e - t).toNat + 52) := Nat.pow_le_pow_right (by decide) (by omega)
        _ = 2 ^ (e - t).toNat * 2 ^ 52 := Nat.pow_add ..
        _ ≤ 2 ^ (e - t).toNat * d := Nat.mul_le_mul_left _ hdlow
    have hbound : m * 2 ^ (e - t).toNat ≤ (2 ^ 53 - 1) * 2 ^ (971 - t).toNat :=
      Nat.mul_le_mul (by omega) (Nat.pow_le_pow_right (by decide) (by omega))
    obtain ⟨hle, hlt⟩ := quotient_bounds (a := m * 2 ^ (e - f - t).toNat)
      (b := m * 2 ^ (e - t).toNat) (by
        rw [Nat.mul_assoc]
        exact Nat.mul_le_mul_left m hscale)
    exact isFinite_ofModel_pack (storable_roundWithAccuracy _ (by omega) (hle.trans hbound)
      fun hacc => (hlt hacc).trans_le hbound)

end TelemetryBands.Decimal
