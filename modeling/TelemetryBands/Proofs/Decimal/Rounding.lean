import TelemetryBands.Proofs.Decimal.Comparison

/-!
# Rounding and packing of floating-point numbers

Arithmetic on floating-point numbers calculates a mantissa, an exponent and how much was cut off,
rounds the three to 53 bits, and packs the result. This file says when the outcome is finite: if
what was calculated is at most the greatest finite number; and when packing loses nothing: if the
mantissa has its full 53 bits.
-/

namespace TelemetryBands.Decimal

open Float.Model (UnpackedFloat Format totalExponent)
open Float.Model.UnpackedFloat

/-- The number of bits that a mantissa has too many, or zero. -/
def excess (m : Nat) (e : Int) : Nat :=
  (max (m.log2 + 1 + e - 53) (-1074) - e).toNat

theorem log2_lt_of_lt {m k : Nat} (h : m < 2 ^ k) (hk : 0 < k) : m.log2 < k := by
  by_cases hm : m = 0
  · rw [hm, Nat.log2_zero]
    exact hk
  · exact (Nat.log2_lt hm).mpr h

theorem targetExponent_eq (m : Nat) (e : Int) :
    Format.binary64.targetExponent (totalExponent m e) = max (m.log2 + 1 + e - 53) (-1074) := by
  simp only [Format.targetExponent, totalExponent, Format.mantissaBits, Format.minExponent]
  norm_num

/-! ## Shifting -/

/-- Nothing was cut off. -/
def IsExact (em : ExtendedMantissa) : Prop :=
  em.roundBit = false ∧ em.stickyBit = false

instance (em : ExtendedMantissa) : Decidable (IsExact em) :=
  inferInstanceAs (Decidable (_ ∧ _))

theorem shiftRight_succ (em : ExtendedMantissa) (n : Nat) :
    em >>> (n + 1) = (em >>> n).shiftRightOne := rfl

theorem mantissa_shiftRight (em : ExtendedMantissa) (n : Nat) :
    (em >>> n).mantissa = em.mantissa / 2 ^ n := by
  induction n with
  | zero =>
    rw [Nat.pow_zero, Nat.div_one]
    rfl
  | succ n ih =>
    rw [shiftRight_succ, Nat.pow_succ, ← Nat.div_div_eq_div_mul, ← ih]
    rfl

/-- A shift cuts nothing off if all bits that fall out are zero. -/
theorem IsExact.shiftRight {em : ExtendedMantissa} (h : IsExact em) {n : Nat}
    (hdvd : 2 ^ n ∣ em.mantissa) : IsExact (em >>> n) := by
  induction n with
  | zero => exact h
  | succ n ih =>
    have hdvd' : 2 ^ n ∣ em.mantissa := (pow_dvd_pow 2 (Nat.le_succ n)).trans hdvd
    obtain ⟨hround, hsticky⟩ := ih hdvd'
    have heven : (em.mantissa / 2 ^ n) % 2 = 0 := by
      obtain ⟨k, hk⟩ := hdvd
      rw [hk, Nat.pow_succ, Nat.mul_assoc, Nat.mul_div_cancel_left _ (Nat.two_pow_pos n)]
      exact Nat.mul_mod_right 2 k
    rw [shiftRight_succ]
    refine ⟨?_, ?_⟩
    · show ((em >>> n).mantissa % 2 != 0) = false
      rw [mantissa_shiftRight, heven]
      rfl
    · show ((em >>> n).roundBit || (em >>> n).stickyBit) = false
      rw [hround, hsticky]
      rfl

theorem roundedMantissa_of_isExact {em : ExtendedMantissa} (h : IsExact em) :
    em.roundedMantissa = em.mantissa := by
  obtain ⟨m, r, s⟩ := em
  obtain ⟨rfl, rfl⟩ := h
  rfl

/-- Rounding goes up by one at most. -/
theorem roundedMantissa_bounds (em : ExtendedMantissa) :
    em.mantissa ≤ em.roundedMantissa ∧ em.roundedMantissa ≤ em.mantissa + 1 := by
  obtain ⟨m, r, s⟩ := em
  cases r <;> cases s <;>
    simp only [ExtendedMantissa.roundedMantissa, ExtendedMantissa.accuracy,
      Accuracy.roundToNearestEven] <;>
    omega

theorem mantissa_ofMantissaAndAccuracy (m : Nat) (acc : Accuracy) :
    (ExtendedMantissa.ofMantissaAndAccuracy m acc).mantissa = m := by
  cases acc with
  | exact => rfl
  | inexact o => cases o <;> rfl

theorem shiftToTargetExponent_eq (m : Nat) (e : Int) (acc : Accuracy) :
    shiftToTargetExponent .binary64 m e acc =
      (ExtendedMantissa.ofMantissaAndAccuracy m acc >>> excess m e, e + excess m e) := by
  rw [shiftToTargetExponent, targetExponent_eq]
  rfl

/-- The mantissa after the bulk of the shifting, rounded. -/
def roundedOnce (m : Nat) (e : Int) (acc : Accuracy) : Nat :=
  (ExtendedMantissa.ofMantissaAndAccuracy m acc >>> excess m e).roundedMantissa

theorem roundedOnce_bounds (m : Nat) (e : Int) (acc : Accuracy) :
    m / 2 ^ excess m e ≤ roundedOnce m e acc ∧
      roundedOnce m e acc ≤ m / 2 ^ excess m e + 1 := by
  have h := roundedMantissa_bounds (ExtendedMantissa.ofMantissaAndAccuracy m acc >>> excess m e)
  rwa [mantissa_shiftRight, mantissa_ofMantissaAndAccuracy] at h

/-- A bound on what was calculated, cut off digits included, bounds the rounded mantissa. -/
theorem roundedOnce_le {m bound : Nat} {e : Int} {acc : Accuracy}
    (hle : m ≤ bound * 2 ^ excess m e) (hlt : acc ≠ .exact → m < bound * 2 ^ excess m e) :
    roundedOnce m e acc ≤ bound := by
  have hpos := Nat.two_pow_pos (excess m e)
  by_cases hlost : acc = .exact ∧ 2 ^ excess m e ∣ m
  · obtain ⟨rfl, hdvd⟩ := hlost
    have hexact : IsExact (ExtendedMantissa.ofMantissaAndAccuracy m .exact >>> excess m e) :=
      IsExact.shiftRight ⟨rfl, rfl⟩ hdvd
    rw [roundedOnce, roundedMantissa_of_isExact hexact, mantissa_shiftRight]
    exact Nat.div_le_of_le_mul (by rwa [Nat.mul_comm])
  · -- Something is cut off, so the shifted mantissa lies strictly below the bound.
    have hstrict : m < bound * 2 ^ excess m e := by
      by_cases hacc : acc = .exact
      · refine lt_of_le_of_ne hle fun heq => hlost ⟨hacc, ?_⟩
        exact Dvd.intro_left bound heq.symm
      · exact hlt hacc
    have hdiv : m / 2 ^ excess m e < bound := Nat.div_lt_of_lt_mul (by rwa [Nat.mul_comm])
    have hround := (roundedOnce_bounds m e acc).2
    omega

/-! ## Rounding -/

/-- Not too great to be packed as a finite number. -/
def Storable : UnpackedFloat → Prop
  | .zero _ => True
  | .finite _ _ e _ => e ≤ 971
  | .infinity _ | .notANumber => False

/-- A positive number with a full mantissa and an exponent between two bounds. -/
def IsNormal (low high : Int) (f : UnpackedFloat) : Prop :=
  ∃ m e hm, f = .finite .positive m e hm ∧ 2 ^ 52 ≤ m ∧ m < 2 ^ 53 ∧ low ≤ e ∧ e ≤ high

/-- The second shift makes up for a mantissa that was rounded up to a further bit. -/
theorem roundWithAccuracy_eq (s : Sign) (m : Nat) (e : Int) (acc : Accuracy) :
    roundWithAccuracy .binary64 s m e acc =
      let r := roundedOnce m e acc
      let e' := e + excess m e
      if h : r / 2 ^ excess r e' = 0 then .zero s
      else .finite s (r / 2 ^ excess r e') (e' + excess r e') (Nat.pos_of_ne_zero h) := by
  simp only [roundWithAccuracy, shiftToTargetExponent_eq]
  have hmantissa : (ExtendedMantissa.ofMantissaAndAccuracy (roundedOnce m e acc) .exact >>>
      excess (roundedOnce m e acc) (e + excess m e)).mantissa =
        roundedOnce m e acc / 2 ^ excess (roundedOnce m e acc) (e + excess m e) := by
    rw [mantissa_shiftRight, mantissa_ofMantissaAndAccuracy]
  unfold roundedOnce at hmantissa ⊢
  simp only [hmantissa]

/-- What is at most the greatest finite number has no more bits than that. -/
theorem log2_lt_of_le_greatest {m : Nat} {e : Int} (he : e ≤ 971)
    (hle : m ≤ (2 ^ 53 - 1) * 2 ^ (971 - e).toNat) : m.log2 + e < 1024 := by
  have hpow : (2 ^ 53 - 1) * 2 ^ (971 - e).toNat < 2 ^ (53 + (971 - e).toNat) := by
    rw [Nat.pow_add]
    exact Nat.mul_lt_mul_of_pos_right (by decide) (Nat.two_pow_pos _)
  have hlog := log2_lt_of_lt (Nat.lt_of_le_of_lt hle hpow) (by omega)
  omega

theorem add_excess_le {m : Nat} {e : Int} (he : e ≤ 971) (hbits : m.log2 + e < 1024) :
    e + excess m e ≤ 971 := by
  unfold excess
  omega

/-- What is at most the greatest finite number, cut off digits included, is rounded to a number that
is not too great. -/
theorem storable_roundWithAccuracy (s : Sign) {m : Nat} {e : Int} {acc : Accuracy} (he : e ≤ 971)
    (hle : m ≤ (2 ^ 53 - 1) * 2 ^ (971 - e).toNat)
    (hlt : acc ≠ .exact → m < (2 ^ 53 - 1) * 2 ^ (971 - e).toNat) :
    Storable (roundWithAccuracy .binary64 s m e acc) := by
  have hshift := add_excess_le he (log2_lt_of_le_greatest he hle)
  have hsplit : (2 ^ 53 - 1) * 2 ^ (971 - e).toNat =
      (2 ^ 53 - 1) * 2 ^ (971 - (e + excess m e)).toNat * 2 ^ excess m e := by
    rw [Nat.mul_assoc, ← Nat.pow_add]
    congr 2
    omega
  rw [hsplit] at hle hlt
  have hbits := log2_lt_of_le_greatest hshift (roundedOnce_le hle hlt)
  rw [roundWithAccuracy_eq]
  simp only
  split
  · trivial
  · exact add_excess_le hshift hbits

/-- The bulk of the shifting leaves 53 bits of a mantissa that has at least as many, the last of
them not below the least one there is. -/
theorem div_excess_bounds {m : Nat} {e : Int} (hm : 52 ≤ m.log2) (he : -1074 ≤ m.log2 + e - 52) :
    excess m e = m.log2 - 52 ∧ 2 ^ 52 ≤ m / 2 ^ excess m e ∧ m / 2 ^ excess m e < 2 ^ 53 := by
  have hne : m ≠ 0 := by
    rintro rfl
    simp at hm
  have hexcess : excess m e = m.log2 - 52 := by
    unfold excess
    omega
  have hsplit : m.log2 = 52 + excess m e := by omega
  refine ⟨hexcess, ?_, Nat.div_lt_of_lt_mul ?_⟩
  · rw [Nat.le_div_iff_mul_le (Nat.two_pow_pos _), ← Nat.pow_add, ← hsplit]
    exact Nat.log2_self_le hne
  · rw [← Nat.pow_add]
    have hself := Nat.lt_log2_self (n := m)
    rwa [hsplit, show 52 + excess m e + 1 = excess m e + 53 by omega] at hself

/-- Such a mantissa is rounded to a full one. -/
theorem isNormal_roundWithAccuracy {m : Nat} {e : Int} (acc : Accuracy) (hm : 52 ≤ m.log2)
    (he : -1074 ≤ m.log2 + e - 52) :
    IsNormal (m.log2 + e - 52) (m.log2 + e - 51)
      (roundWithAccuracy .binary64 .positive m e acc) := by
  obtain ⟨hexcess, hlow, hhigh⟩ := div_excess_bounds hm he
  obtain ⟨hfloor, hround⟩ := roundedOnce_bounds m e acc
  rw [roundWithAccuracy_eq]
  simp only
  generalize roundedOnce m e acc = r at *
  by_cases hcarry : r < 2 ^ 53
  · have hlog : r.log2 = 52 := (Nat.log2_eq_iff (by omega)).mpr ⟨by omega, hcarry⟩
    have hnone : excess r (e + excess m e) = 0 := by
      rw [excess, hlog]
      omega
    simp only [hnone, Nat.pow_zero, Nat.div_one]
    rw [dif_neg (by omega)]
    exact ⟨r, _, by omega, rfl, by omega, hcarry, by omega, by omega⟩
  · -- Rounding up from all ones gives one bit more, which the second shift takes back.
    obtain rfl : r = 2 ^ 53 := by omega
    have hone : excess (2 ^ 53) (e + excess m e) = 1 := by
      rw [excess, Nat.log2_two_pow]
      omega
    simp only [hone]
    rw [dif_neg (by decide)]
    exact ⟨2 ^ 52, _, by decide, rfl, by decide, by decide, by omega, by omega⟩

/-! ## Packing -/

theorem exponentBias_eq : Format.binary64.exponentBias = 1023 := rfl

/-- The bit that the fraction field leaves out stands above it. -/
theorem toNat_hidden_append (fraction : BitVec 52) :
    (1#1 ++ fraction).toNat = 2 ^ 52 + fraction.toNat := by
  have hor := Nat.two_pow_add_eq_or_of_lt fraction.isLt 1
  rw [Nat.mul_one] at hor
  rw [BitVec.toNat_append, hor]
  rfl

/-- What components stand for whose exponent field is that of a full mantissa. -/
theorem unpack_packComponents (s : Sign) {exponent : BitVec 11} (fraction : BitVec 52)
    (hlow : exponent ≠ 0#11) (hhigh : exponent ≠ -1#11) :
    ∃ hm, unpack .binary64 (packComponents .binary64 s exponent fraction) =
      .finite s (2 ^ 52 + fraction.toNat) (exponent.toNat - 1075) hm := by
  refine ⟨by omega, ?_⟩
  rw [unpack]
  simp only [unpackExponent_packComponents, unpackMantissa_packComponents,
    unpackSign_packComponents, if_neg hhigh, if_neg hlow, Sign.ofBitVec_toBitVec,
    UnpackedFloat.finite.injEq, true_and]
  refine ⟨toNat_hidden_append fraction, ?_⟩
  rw [exponentBias_eq]
  omega

theorem ofNat_exponent {k : Nat} (hlow : 0 < k) (hhigh : k < 2047) :
    BitVec.ofNat 11 k ≠ 0#11 ∧ BitVec.ofNat 11 k ≠ -1#11 ∧ (BitVec.ofNat 11 k).toNat = k := by
  have hval : (BitVec.ofNat 11 k).toNat = k := by
    rw [BitVec.toNat_ofNat, Nat.mod_eq_of_lt (by omega)]
  refine ⟨fun h => ?_, fun h => ?_, hval⟩
  · rw [h] at hval
    exact absurd hval (by simp; omega)
  · rw [h] at hval
    exact absurd hval (by simp; omega)

/-- Packing a full mantissa with an exponent that the format has loses nothing. -/
theorem unpack_pack_of_isNormal {low high : Int} {f : UnpackedFloat} (h : IsNormal low high f)
    (hlow : -1074 ≤ low) (hhigh : high ≤ 971) :
    unpack .binary64 (pack .binary64 f) = f := by
  obtain ⟨m, e, hm, rfl, hmlow, hmhigh, helow, hehigh⟩ := h
  have hlog : m.log2 = 52 := (Nat.log2_eq_iff (by omega)).mpr ⟨hmlow, hmhigh⟩
  have hpack : pack .binary64 (.finite .positive m e hm) =
      packComponents .binary64 .positive (BitVec.ofNat 11 (e + 1023 + 52).toNat)
        (BitVec.ofNat 52 m) := by
    unfold pack
    simp only [exponentBias_eq, hlog, Format.mantissaBits]
    rw [if_neg (by push_cast; omega), if_pos (by norm_num)]
    rfl
  obtain ⟨hzero, hones, hexponent⟩ :=
    ofNat_exponent (k := (e + 1023 + 52).toNat) (by omega) (by omega)
  obtain ⟨hm', hunpack⟩ := unpack_packComponents .positive (BitVec.ofNat 52 m) hzero hones
  rw [hpack, hunpack, UnpackedFloat.finite.injEq, hexponent, BitVec.toNat_ofNat]
  refine ⟨rfl, ?_, by omega⟩
  omega

/-- A packed number is finite unless all bits of its exponent field are ones. -/
theorem isFinite_unpack_iff {b : BitVec 64} :
    (unpack .binary64 b).isFinite = true ↔ @unpackExponent .binary64 b ≠ -1#11 := by
  unfold unpack
  simp only
  split
  · rename_i hones
    refine iff_of_false ?_ (not_not.mpr hones)
    split <;> exact Bool.false_ne_true
  · rename_i hones
    refine iff_of_true ?_ hones
    split
    · split <;> rfl
    · rfl

/-- What is not too great is packed as a finite number. -/
theorem isFinite_unpack_pack {f : UnpackedFloat} (h : Storable f) :
    (unpack .binary64 (pack .binary64 f)).isFinite = true := by
  cases f with
  | infinity s => cases h
  | notANumber => cases h
  | zero s =>
    have hzero : unpack .binary64 (pack .binary64 (.zero s)) = .zero s := unpack_packedZero
    rw [hzero]
    rfl
  | finite s m e hm =>
    have he : e ≤ 971 := h
    rw [isFinite_unpack_iff]
    unfold pack
    simp only
    split
    · rename_i hoverflow
      rw [exponentBias_eq] at hoverflow
      push_cast at hoverflow
      omega
    · split
      · rw [unpackExponent_packComponents, exponentBias_eq]
        by_cases hpos : 0 < (e + (1023 : Nat) + (52 : Nat)).toNat
        · exact (ofNat_exponent hpos (by omega)).2.1
        · have hnone : (e + (1023 : Nat) + (52 : Nat)).toNat = 0 := by omega
          rw [hnone]
          decide
      · rw [unpackExponent_packComponents]
        decide

/-- A packed number that is finite is a zero, or has a mantissa of at most 53 bits and an exponent
that the format has. -/
theorem unpack_of_isFinite {b : BitVec 64} (h : (unpack .binary64 b).isFinite = true) :
    (∃ s, unpack .binary64 b = .zero s) ∨
      ∃ s m e hm, unpack .binary64 b = .finite s m e hm ∧ m < 2 ^ 53 ∧ -1074 ≤ e ∧ e ≤ 971 := by
  have hones := isFinite_unpack_iff.mp h
  have hlt : (@unpackExponent .binary64 b).toNat < 2047 := by
    have hbound : (@unpackExponent .binary64 b).toNat < 2048 := BitVec.isLt _
    have hne : (@unpackExponent .binary64 b).toNat ≠ 2047 := fun heq =>
      hones (BitVec.eq_of_toNat_eq heq)
    omega
  have hfraction : (@unpackMantissa .binary64 b).toNat < 2 ^ 52 := BitVec.isLt _
  unfold unpack
  simp only [if_neg hones, exponentBias_eq]
  split
  · rename_i hzero
    split
    · exact .inl ⟨_, rfl⟩
    · rename_i hfield
      have hpos : 0 < (@unpackMantissa .binary64 b).toNat :=
        Nat.pos_of_ne_zero fun heq => hfield (BitVec.eq_of_toNat_eq heq)
      have hexponent : (@unpackExponent .binary64 b).toNat = 0 := by
        rw [hzero]
        rfl
      exact .inr ⟨_, _, _, hpos, rfl, by omega, by push_cast; omega, by push_cast; omega⟩
  · rename_i hzero
    have hpos : (@unpackExponent .binary64 b).toNat ≠ 0 := fun heq =>
      hzero (BitVec.eq_of_toNat_eq heq)
    have happend := toNat_hidden_append (@unpackMantissa .binary64 b)
    refine .inr ⟨_, _, _, (by omega : 0 < (1#1 ++ @unpackMantissa .binary64 b).toNat), rfl,
      by omega, by push_cast; omega, by push_cast; omega⟩

end TelemetryBands.Decimal
