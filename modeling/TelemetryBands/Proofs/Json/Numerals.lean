import Mathlib.Data.List.DropRight
import TelemetryBands.Proofs.Json.Reading

/-!
# Floating-point numbers in documents

The numeral of a floating-point number is read back as that numeral. Its shortest digits are some
digits, the first of which is no zero, because what reads back as a positive magnitude is positive;
and every layout of such digits is a numeral that a document may hold.
-/

namespace TelemetryBands

namespace Decimal

theorem isDigit_of_mem_zeros {n : Nat} {c : Char} (h : c ∈ List.replicate n '0') :
    Text.isDigit c = true := by
  rw [List.eq_of_mem_replicate h]
  rfl

namespace Numeral

/-- A numeral that a document may hold: before the point a lone zero or digits that do not start
with a zero, and digits in the other places. -/
structure WellFormed (n : Numeral) : Prop where
  whole : isWhole n.whole = true
  fraction : ∀ c ∈ n.fraction, Text.isDigit c = true
  exponent : ∀ e, n.exponent = some e → Text.isDigits e.digits = true

/-- What follows the digits before the point. -/
def tail (n : Numeral) : List Char :=
  (if n.fraction.isEmpty then [] else '.' :: n.fraction) ++ n.exponent.elim [] Exponent.chars

theorem chars_eq (n : Numeral) :
    n.chars = (if n.negative then ['-'] else []) ++ (n.whole ++ n.tail) := by
  simp only [chars, tail, List.append_assoc]

theorem exists_of_isWhole {cs : List Char} (h : isWhole cs = true) :
    (∃ c rest, cs = c :: rest) ∧ ∀ c ∈ cs, Text.isDigit c = true := by
  unfold isWhole at h
  split at h
  · cases h
  · exact ⟨⟨_, _, rfl⟩, fun c hc => isDigit_of_mem_zeros (n := 1) hc⟩
  · rename_i c rest _
    rw [Bool.and_eq_true] at h
    exact ⟨⟨c, rest, rfl⟩, List.all_eq_true.mp h.2⟩

theorem readExponent?_chars {e : Option Exponent}
    (h : ∀ e', e = some e' → Text.isDigits e'.digits = true) :
    readExponent? (e.elim [] Exponent.chars) = some e := by
  cases e with
  | none => rfl
  | some e =>
    obtain ⟨negative, digits⟩ := e
    have hdigits : Text.isDigits digits = true := h _ rfl
    cases negative <;> simp [Exponent.chars, readExponent?, hdigits]

/-- Digits end where the mark of a power of ten stands. -/
theorem takeWhile_exponent {cs : List Char} (hcs : ∀ c ∈ cs, Text.isDigit c = true)
    (e : Option Exponent) :
    (cs ++ e.elim [] Exponent.chars).takeWhile Text.isDigit = cs ∧
      (cs ++ e.elim [] Exponent.chars).dropWhile Text.isDigit = e.elim [] Exponent.chars := by
  rw [List.takeWhile_append_of_pos hcs, List.dropWhile_append_of_pos hcs]
  cases e with
  | none => simp
  | some e => exact ⟨List.append_nil cs, rfl⟩

namespace WellFormed

variable {n : Numeral}

theorem split_body (h : n.WellFormed) :
    (n.whole ++ n.tail).takeWhile Text.isDigit = n.whole ∧
      (n.whole ++ n.tail).dropWhile Text.isDigit = n.tail := by
  have hdigits := (exists_of_isWhole h.whole).2
  unfold tail
  by_cases hfraction : n.fraction.isEmpty = true
  · rw [if_pos hfraction, List.nil_append]
    exact takeWhile_exponent hdigits n.exponent
  · rw [if_neg hfraction, List.takeWhile_append_of_pos hdigits,
      List.dropWhile_append_of_pos hdigits]
    exact ⟨List.append_nil _, rfl⟩

/-- The digits do not begin with a sign. -/
theorem body_ne_minus (h : n.WellFormed) (cs : List Char) : n.whole ++ n.tail ≠ '-' :: cs := by
  obtain ⟨⟨c, rest, hwhole⟩, hdigits⟩ := exists_of_isWhole h.whole
  rw [hwhole] at hdigits ⊢
  intro heq
  obtain ⟨rfl, -⟩ := List.cons.inj heq
  exact absurd (hdigits '-' List.mem_cons_self) (by decide)

theorem ofChars?_chars (h : n.WellFormed) : ofChars? n.chars = some n := by
  obtain ⟨htake, hdrop⟩ := h.split_body
  have hexponent := readExponent?_chars h.exponent
  unfold ofChars?
  split
  rename_i negative body heq
  obtain ⟨rfl, rfl⟩ : negative = n.negative ∧ body = n.whole ++ n.tail := by
    rw [chars_eq] at heq
    cases hnegative : n.negative with
    | true =>
      rw [hnegative] at heq
      cases heq
      exact ⟨rfl, rfl⟩
    | false =>
      rw [hnegative, if_neg Bool.false_ne_true, List.nil_append] at heq
      split at heq
      · rename_i cs hcs
        exact absurd hcs (h.body_ne_minus cs)
      · cases heq
        exact ⟨rfl, rfl⟩
  simp only [htake, hdrop, h.whole, if_true]
  obtain ⟨negative, whole, fraction, exponent⟩ := n
  cases fraction with
  | nil =>
    cases exponent with
    | none => rfl
    | some e =>
      have hread : readExponent? (Exponent.chars e) = some (some e) := hexponent
      simp [tail, Exponent.chars] at hread ⊢
      rw [hread]
  | cons c fraction =>
    obtain ⟨htake', hdrop'⟩ := takeWhile_exponent h.fraction exponent
    have htail : tail ⟨negative, whole, c :: fraction, exponent⟩ =
        '.' :: (c :: fraction ++ exponent.elim [] Exponent.chars) := rfl
    simp only [htail, htake', hdrop', hexponent]
    rfl

theorem isNumeralChar_of_mem_tail (h : n.WellFormed) {c : Char} (hc : c ∈ n.tail) :
    Json.isNumeralChar c = true := by
  have hdigit : ∀ d, Text.isDigit d = true → Json.isNumeralChar d = true := by
    intro d hd
    simp [Json.isNumeralChar, hd]
  rcases List.mem_append.mp hc with hc | hc
  · split at hc
    · cases hc
    · rcases List.mem_cons.mp hc with rfl | hc
      · rfl
      · exact hdigit c (h.fraction c hc)
  · cases hexponent : n.exponent with
    | none =>
      rw [hexponent] at hc
      cases hc
    | some e =>
      have hdigits := h.exponent e hexponent
      rw [Text.isDigits, Bool.and_eq_true] at hdigits
      rw [hexponent] at hc
      rcases List.mem_cons.mp hc with rfl | hc
      · rfl
      · rcases List.mem_cons.mp hc with rfl | hc
        · split <;> rfl
        · exact hdigit c (List.all_eq_true.mp hdigits.2 c hc)

/-- A well-formed numeral is readable. -/
theorem readable (h : n.WellFormed) : n.Readable where
  start := by
    obtain ⟨⟨c, rest, hwhole⟩, hdigits⟩ := exists_of_isWhole h.whole
    have hbody : ∀ d ∈ n.whole ++ n.tail, Json.isNumeralChar d = true := by
      intro d hd
      rcases List.mem_append.mp hd with hd | hd
      · simp [Json.isNumeralChar, hdigits d hd]
      · exact h.isNumeralChar_of_mem_tail hd
    rw [chars_eq]
    cases n.negative with
    | true => exact ⟨'-', n.whole ++ n.tail, rfl, rfl, hbody⟩
    | false =>
      rw [hwhole] at hdigits hbody ⊢
      refine ⟨c, rest ++ n.tail, rfl, ?_, fun d hd => hbody d (List.mem_cons_of_mem c hd)⟩
      simp [Json.startsNumeral, hdigits c List.mem_cons_self]
  ofChars?_chars := h.ofChars?_chars

end WellFormed

end Numeral

/-! ## Shortest digits -/

variable {b : Binary}

/-- Zero is not read back as a positive magnitude. -/
theorem readsBack_zero (hb : b.mantissa ≠ 0) (e : Int) : b.readsBack 0 e = false := by
  unfold Binary.readsBack fractionOf
  simp only [Nat.zero_mul]
  have hden : 0 < Nat.pow 2 (-(2 - b.exponent)).toNat * Nat.pow 10 (-e).toNat :=
    Nat.mul_pos (Nat.pow_pos (by decide)) (Nat.pow_pos (by decide))
  have hlow : 0 < 4 * b.mantissa - (if b.narrowBelow = true then 1 else 2) := by
    split <;> omega
  have hprod := Nat.mul_pos hlow hden
  split
  · rw [Bool.and_eq_false_iff]
    exact .inl (decide_eq_false (by omega))
  · rw [Bool.and_eq_false_iff]
    exact .inl (decide_eq_false (by omega))

/-- A neighbour on a grid reads back. -/
theorem readsBack_of_onGrid? {tie : Tie} {k : Int} {count n : Nat} {e : Int}
    (h : b.onGrid? tie k count = some (n, e)) : b.readsBack n e = true := by
  unfold Binary.onGrid? at h
  simp only at h
  split at h
  · cases h
  · rename_i hbelow habove
    cases h
    exact hbelow
  · rename_i hbelow habove
    cases h
    exact habove
  · rename_i hbelow habove
    split at h
    · cases h
      exact hbelow
    · split at h
      · cases h
        exact habove
      · split at h
        · cases h
          exact habove
        · cases h
          split
          · exact hbelow
          · exact habove

theorem exact_pos (hb : b.mantissa ≠ 0) : 0 < b.exact.1 := by
  unfold Binary.exact
  split
  · exact Nat.mul_pos (Nat.pos_of_ne_zero hb) (Nat.pow_pos (by decide))
  · exact Nat.mul_pos (Nat.pos_of_ne_zero hb) (Nat.pow_pos (by decide))

/-- The shortest digits of a positive magnitude are those of a positive number. -/
theorem exists_shortest (hb : b.mantissa ≠ 0) (tie : Tie) :
    ∃ n e, 0 < n ∧ b.shortest tie = significant n e := by
  unfold Binary.shortest
  simp only
  cases hgrid : ((List.range 17).map (· + 1)).findSome? (b.onGrid? tie b.scale) with
  | none => exact ⟨b.exact.1, b.exact.2, exact_pos hb, rfl⟩
  | some found =>
    obtain ⟨n, e⟩ := found
    obtain ⟨count, -, hfound⟩ := List.exists_of_findSome?_eq_some hgrid
    refine ⟨n, e, Nat.pos_of_ne_zero ?_, rfl⟩
    rintro rfl
    have hreads := readsBack_of_onGrid? hfound
    rw [readsBack_zero hb] at hreads
    cases hreads

/-- Some digits of which the first is no zero, or a lone zero before the point. -/
structure Significant.Proper (s : Significant) : Prop where
  digits : ∀ c ∈ s.digits, Text.isDigit c = true
  first : (∃ c rest, s.digits = c :: rest ∧ c ≠ '0') ∨ s = ⟨['0'], 1⟩

/-- Taking zeros away from the end leaves the first digit, which is none. -/
theorem proper_significant {n : Nat} (hn : 0 < n) (e : Int) : (significant n e).Proper := by
  obtain ⟨c, cs, hcs, hc⟩ := Text.digits_eq_cons hn.ne'
  have hrdrop : (significant n e).digits = (Text.digits n).rdropWhile (· == '0') := rfl
  have hlead := List.rdropWhile_prefix (· == '0') (l := Text.digits n)
  have hne : (Text.digits n).rdropWhile (· == '0') ≠ [] := by
    rw [Ne, List.rdropWhile_eq_nil_iff]
    intro hall
    have hzero := hall c (by rw [hcs]; exact List.mem_cons_self)
    exact hc (by simpa using hzero)
  constructor
  · intro d hd
    rw [hrdrop] at hd
    exact Text.isDigit_of_mem_digits (hlead.subset hd)
  · obtain ⟨d, rest, hd⟩ := List.exists_cons_of_ne_nil hne
    refine .inl ⟨d, rest, hrdrop.trans hd, ?_⟩
    rw [hd, hcs] at hlead
    rwa [(List.cons_prefix_cons.mp hlead).1]

theorem isWhole_of_digits {cs : List Char} (h : ∀ c ∈ cs, Text.isDigit c = true)
    (hfirst : (∃ c rest, cs = c :: rest ∧ c ≠ '0') ∨ cs = ['0']) :
    Numeral.isWhole cs = true := by
  rcases hfirst with ⟨c, rest, rfl, hc⟩ | rfl
  · unfold Numeral.isWhole
    split
    · rename_i heq
      cases heq
    · rfl
    · rename_i heq
      obtain ⟨rfl, rfl⟩ := List.cons.inj heq
      rw [Bool.and_eq_true]
      exact ⟨by simpa using hc, List.all_eq_true.mpr h⟩
  · rfl

/-! ## Layouts -/

variable {s : Significant}

theorem isDigits_digits (n : Nat) : Text.isDigits (Text.digits n) = true := by
  obtain ⟨⟨c, rest, hdigits⟩, hall⟩ := Numeral.exists_of_isWhole (Numeral.isWhole_digits n)
  rw [Text.isDigits, Bool.and_eq_true]
  exact ⟨by rw [hdigits]; rfl, List.all_eq_true.mpr hall⟩

namespace Significant.Proper

/-- The digits before the point, with zeros up to it. -/
theorem isWhole_take (h : s.Proper) (hpoint : 0 < s.point) :
    Numeral.isWhole (s.digits.take s.point.toNat
      ++ List.replicate (s.point - s.digits.length).toNat '0') = true := by
  apply isWhole_of_digits
  · intro c hc
    rcases List.mem_append.mp hc with hc | hc
    · exact h.digits c (List.mem_of_mem_take hc)
    · exact isDigit_of_mem_zeros hc
  · rcases h.first with ⟨c, rest, hdigits, hc⟩ | rfl
    · obtain ⟨k, hk⟩ : ∃ k, s.point.toNat = k + 1 := ⟨s.point.toNat - 1, by omega⟩
      rw [hk, hdigits, List.take_succ_cons]
      exact .inl ⟨c, _, rfl, hc⟩
    · exact .inr rfl

theorem wellFormed_plain (h : s.Proper) (f : Format) (negative : Bool) :
    (f.plain negative s).WellFormed where
  whole := by
    show Numeral.isWhole (if s.point ≤ 0 then ['0'] else _) = true
    split
    · rfl
    · exact h.isWhole_take (by omega)
  fraction := by
    intro c hc
    unfold Format.plain at hc
    simp only at hc
    split at hc
    · rcases List.mem_append.mp hc with hc | hc
      · exact isDigit_of_mem_zeros hc
      · exact h.digits c hc
    · split at hc
      · obtain rfl := List.mem_singleton.mp hc
        rfl
      · exact h.digits c (List.mem_of_mem_drop hc)
  exponent := nofun

theorem wellFormed_scientific (h : s.Proper) (negative : Bool) :
    (scientific negative s).WellFormed where
  whole := by
    apply isWhole_of_digits fun c hc => h.digits c (List.mem_of_mem_take hc)
    rcases h.first with ⟨c, rest, hdigits, hc⟩ | rfl
    · exact .inl ⟨c, [], congrArg (List.take 1) hdigits, hc⟩
    · exact .inr rfl
  fraction := fun c hc => h.digits c (List.mem_of_mem_drop hc)
  exponent := by
    rintro e he
    cases he
    exact isDigits_digits _

end Significant.Proper

/-- Every finite magnitude is laid out as a numeral that a document may hold. -/
theorem wellFormed_numeral (f : Format) (negative : Bool) (b : Binary) :
    (f.numeral negative b).WellFormed := by
  have hproper :
      (if b.mantissa = 0 then ⟨['0'], 1⟩ else b.shortest f.tie : Significant).Proper := by
    split
    · exact ⟨fun c hc => isDigit_of_mem_zeros (n := 1) hc, .inr rfl⟩
    · rename_i hb
      obtain ⟨n, e, hn, hshortest⟩ := exists_shortest hb f.tie
      rw [hshortest]
      exact proper_significant hn e
  unfold Format.numeral
  simp only
  generalize (if b.mantissa = 0 then ⟨['0'], 1⟩ else b.shortest f.tie : Significant) = s at *
  split
  · exact hproper.wellFormed_plain f negative
  · exact hproper.wellFormed_scientific negative

end Decimal

namespace Json

/-- A floating-point number is legible, also where a document holds `null` in its place. -/
theorem legible_ofFloat (x : Float) : (ofFloat x).Legible := by
  unfold ofFloat
  split
  · rename_i negative b _
    intro t ht
    obtain rfl := List.mem_singleton.mp ht
    exact (Decimal.wellFormed_numeral numbers negative b).readable
  · exact legible_null

/-- A document holds a numeral for a floating-point number, or `null`. -/
theorem ofFloat_cases (x : Float) : (∃ n, ofFloat x = .number n) ∨ ofFloat x = .null := by
  unfold ofFloat
  split
  · exact .inl ⟨_, rfl⟩
  · exact .inr rfl

/-- It holds `null` for the numbers that are not finite. -/
theorem ofFloat_eq_null {x : Float} : ofFloat x = .null ↔ Decimal.isFinite x = false := by
  unfold ofFloat Decimal.isFinite
  cases Decimal.parts x with
  | nan => exact ⟨fun _ => rfl, fun _ => rfl⟩
  | infinite negative => exact ⟨fun _ => rfl, fun _ => rfl⟩
  | finite negative b => exact ⟨nofun, nofun⟩

theorem legible_of_mem_itemTokens {items : List Json} (h : ∀ item ∈ items, item.Legible)
    {t : Token} (ht : t ∈ itemTokens items) : t.Legible := by
  induction items with
  | nil => cases ht
  | cons item items ih =>
    have hitem := h item List.mem_cons_self
    cases items with
    | nil => exact hitem t ht
    | cons next items =>
      rcases List.mem_append.mp ht with ht | ht
      · exact hitem t ht
      · rcases List.mem_cons.mp ht with rfl | ht
        · trivial
        · exact ih (fun other hother => h other (List.mem_cons_of_mem item hother)) ht

/-- An array of legible items is legible. -/
theorem legible_array {items : List Json} (h : ∀ item ∈ items, item.Legible) :
    (array items).Legible := by
  intro t ht
  rcases List.mem_cons.mp ht with rfl | ht
  · trivial
  · rcases List.mem_append.mp ht with ht | ht
    · exact legible_of_mem_itemTokens h ht
    · obtain rfl := List.mem_singleton.mp ht
      trivial

end Json

end TelemetryBands
