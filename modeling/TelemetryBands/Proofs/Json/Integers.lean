import Mathlib.Data.List.TakeWhile
import TelemetryBands.Clock.Document
import TelemetryBands.Json.Token
import TelemetryBands.Json.Variant

/-!
# Integers in documents

The digits of a natural number are read back as that number, and the numeral of an integer is read
back as that numeral, with the integer as its value as long as it fits 64 bits.
-/

namespace TelemetryBands

namespace Text

theorem isDigit_of_mem_digits {n : Nat} {c : Char} (h : c ∈ digits n) : isDigit c = true :=
  Nat.isDigit_of_mem_toDigits (by decide) (by decide) h

theorem ofDigits_digits (n : Nat) : ofDigits (digits n) = n :=
  Nat.ofDigitChars_ten_toDigits

/-- The digits of a positive number do not start with a zero. -/
theorem digits_eq_cons {n : Nat} (h : n ≠ 0) : ∃ c cs, digits n = c :: cs ∧ c ≠ '0' := by
  induction n using Nat.strongRecOn with
  | ind n ih =>
    by_cases hlt : n < 10
    · refine ⟨n.digitChar, [], Nat.toDigits_of_lt_base hlt, ?_⟩
      have hall : ∀ k < 10, k ≠ 0 → k.digitChar ≠ '0' := by decide
      exact hall n hlt h
    · obtain ⟨c, cs, hcs, hc⟩ := ih (n / 10) (by omega) (by omega)
      refine ⟨c, cs ++ [(n % 10).digitChar], ?_, hc⟩
      have hsplit : digits n = digits (n / 10) ++ [(n % 10).digitChar] :=
        Nat.toDigits_of_base_le (by decide) (by omega)
      rw [hsplit, hcs, List.cons_append]

end Text

namespace Decimal.Numeral

/-- The digits of a number may stand before a point. -/
theorem isWhole_digits (n : Nat) : isWhole (Text.digits n) = true := by
  by_cases h : n = 0
  · rw [h]
    rfl
  · obtain ⟨c, cs, hcs, hc⟩ := Text.digits_eq_cons h
    have hall : (c :: cs).all Text.isDigit = true := by
      rw [← hcs, List.all_eq_true]
      exact fun d hd => Text.isDigit_of_mem_digits hd
    rw [hcs]
    unfold isWhole
    split
    · rename_i heq
      cases heq
    · rfl
    · rename_i heq
      obtain ⟨rfl, rfl⟩ := List.cons.inj heq
      rw [hall, Bool.and_true]
      simpa using hc

/-- A numeral is readable if its text is taken for a numeral and for that one. -/
structure Readable (n : Numeral) : Prop where
  start : ∃ c cs, n.chars = c :: cs ∧ Json.startsNumeral c = true ∧
    ∀ d ∈ cs, Json.isNumeralChar d = true
  ofChars?_chars : ofChars? n.chars = some n

theorem chars_ofInt (n : Int) :
    (ofInt n).chars = (if n < 0 then ['-'] else []) ++ Text.digits n.natAbs := by
  by_cases hn : n < 0 <;> simp [chars, ofInt, hn]

/-- The numeral of an integer is read back. -/
theorem readable_ofInt (n : Int) : (ofInt n).Readable where
  start := by
    obtain ⟨c, cs, hcs⟩ :=
      List.exists_cons_of_ne_nil (Nat.toDigits_ne_nil (n := n.natAbs) (b := 10))
    have hdigits : ∀ d ∈ c :: cs, Text.isDigit d = true := by
      intro d hd
      rw [← hcs] at hd
      exact Text.isDigit_of_mem_digits hd
    rw [chars_ofInt, Text.digits, hcs]
    by_cases hn : n < 0
    · rw [if_pos hn]
      refine ⟨'-', c :: cs, rfl, rfl, fun d hd => ?_⟩
      simp [Json.isNumeralChar, hdigits d hd]
    · rw [if_neg hn]
      refine ⟨c, cs, rfl, ?_, fun d hd => ?_⟩
      · simp [Json.startsNumeral, hdigits c List.mem_cons_self]
      · simp [Json.isNumeralChar, hdigits d (List.mem_cons_of_mem c hd)]
  ofChars?_chars := by
    have hdigits : ∀ d ∈ Text.digits n.natAbs, Text.isDigit d = true :=
      fun d hd => Text.isDigit_of_mem_digits hd
    have htake : (Text.digits n.natAbs).takeWhile Text.isDigit = Text.digits n.natAbs :=
      List.takeWhile_eq_self_iff.mpr hdigits
    have hdrop : (Text.digits n.natAbs).dropWhile Text.isDigit = [] :=
      List.dropWhile_eq_nil_iff.mpr hdigits
    have hwhole := isWhole_digits n.natAbs
    rw [chars_ofInt]
    by_cases hn : n < 0
    · simp [ofChars?, ofInt, hn, htake, hdrop, hwhole, readExponent?]
    · have hminus : ∀ cs, Text.digits n.natAbs ≠ '-' :: cs := by
        intro cs hcs
        have hdigit := hdigits '-' (by rw [hcs]; exact List.mem_cons_self)
        cases hdigit
      rw [if_neg hn, List.nil_append]
      unfold ofChars?
      split
      rename_i negative body heq
      split at heq
      · rename_i cs hcs
        exact absurd hcs (hminus cs)
      · cases heq
        simp [ofInt, hn, htake, hdrop, hwhole, readExponent?]

/-- The numeral of an integer that fits 64 bits stands for it. -/
theorem int?_ofInt {n : Int} (hlow : -9223372036854775808 ≤ n) (hhigh : n < 18446744073709551616) :
    (ofInt n).int? = some n := by
  have hplain : (ofInt n).fraction.isEmpty = true ∧ (ofInt n).exponent.isNone = true := ⟨rfl, rfl⟩
  have hmagnitude : Text.ofDigits (ofInt n).whole = n.natAbs := Text.ofDigits_digits n.natAbs
  unfold int?
  rw [if_pos hplain, hmagnitude]
  by_cases hn : n < 0
  · have hnegative : (ofInt n).negative = true := decide_eq_true hn
    have hbounds : 0 < n.natAbs ∧ 2 * n.natAbs ≤ Text.limit64 := by
      unfold Text.limit64
      omega
    rw [if_pos hnegative, if_pos hbounds, Option.some.injEq]
    omega
  · have hnegative : ¬ (ofInt n).negative = true := by simpa [ofInt] using hn
    have hbound : n.natAbs < Text.limit64 := by
      unfold Text.limit64
      omega
    rw [if_neg hnegative, if_pos hbound, Option.some.injEq]
    omega

end Decimal.Numeral

namespace Json

/-- An integer between two bounds is read back from its numeral. -/
theorem int?_ofInt {low high n : Int} (hlow : low ≤ n) (hhigh : n ≤ high)
    (hfirst : -9223372036854775808 ≤ n) (hlast : n < 18446744073709551616) :
    (ofInt n).int? low high = some n := by
  simp [ofInt, int?, Decimal.Numeral.int?_ofInt hfirst hlast, hlow, hhigh]

/-- A 32-bit number is read back. -/
@[simp] theorem word32?_ofWord32 (n : UInt32) : word32? (ofWord32 n) = some n := by
  have hlt := n.toNat_lt
  have hint : (ofWord32 n).int? 0 (Text.limit32 - 1) = some (n.toNat : Int) :=
    int?_ofInt (by omega) (by unfold Text.limit32; omega) (by omega) (by omega)
  rw [word32?, hint, Option.map_some, Int.toNat_natCast, UInt32.ofNat_toNat]

/-- A 64-bit number is read back. -/
@[simp] theorem word64?_ofWord64 (n : UInt64) : word64? (ofWord64 n) = some n := by
  have hlt := n.toNat_lt
  have hint : (ofWord64 n).int? 0 (Text.limit64 - 1) = some (n.toNat : Int) :=
    int?_ofInt (by omega) (by unfold Text.limit64; omega) (by omega) (by omega)
  rw [word64?, hint, Option.map_some, Int.toNat_natCast, UInt64.ofNat_toNat]

end Json

/-- An instant is read back. -/
@[simp] theorem Millis.ofJson?_toJson (t : Millis) : Millis.ofJson? t.toJson = some t := by
  have hlow := t.first_le
  have hhigh := t.le_last
  have hint : t.toJson.int? first.val last.val = some t.val :=
    Json.int?_ofInt hlow hhigh hlow (by omega)
  rw [ofJson?, hint, Option.bind_some, ofInt?, dif_pos ⟨hlow, hhigh⟩]

end TelemetryBands
