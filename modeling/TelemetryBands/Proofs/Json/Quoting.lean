import Mathlib.Data.List.Basic
import TelemetryBands.Proofs.Json.Integers

/-!
# Texts between quotes

Every text is written properly between quotes and is read back. The proofs go through one character
at a time: an escape is proper in front of everything that is, and gives one piece that stands for
its character.
-/

namespace TelemetryBands.Quoted

/-- The characters that are written with a letter behind a backslash. -/
theorem exists_letter {c : Char} (h : c ∈ ['"', '\\', '\x08', '\x0c', '\n', '\r', '\t']) :
    ∃ letter, escape c = ['\\', letter] ∧ letter ≠ 'u' ∧ shortEscapes.lookup letter = some c := by
  simp only [List.mem_cons, List.not_mem_nil, or_false] at h
  rcases h with rfl | rfl | rfl | rfl | rfl | rfl | rfl
  · exact ⟨'"', by decide, by decide, by decide⟩
  · exact ⟨'\\', by decide, by decide, by decide⟩
  · exact ⟨'b', by decide, by decide, by decide⟩
  · exact ⟨'f', by decide, by decide, by decide⟩
  · exact ⟨'n', by decide, by decide, by decide⟩
  · exact ⟨'r', by decide, by decide, by decide⟩
  · exact ⟨'t', by decide, by decide, by decide⟩

/-- How a character is written: by a letter behind a backslash, by its number, or as it stands. -/
theorem escape_cases (c : Char) :
    (∃ letter, escape c = ['\\', letter] ∧ letter ≠ 'u' ∧ shortEscapes.lookup letter = some c) ∨
      (c.toNat < 32 ∧ escape c = '\\' :: 'u' :: Text.hexDigits 4 c.toNat) ∨
        (escape c = [c] ∧ c ≠ '\\' ∧ c ≠ '"' ∧ ' ' ≤ c) := by
  by_cases hshort : c ∈ ['"', '\\', '\x08', '\x0c', '\n', '\r', '\t']
  · exact Or.inl (exists_letter hshort)
  · right
    simp only [List.mem_cons, List.not_mem_nil, or_false, not_or] at hshort
    by_cases hlt : c < ' '
    · left
      exact ⟨hlt, by simp [escape, hshort, hlt]⟩
    · right
      exact ⟨by simp [escape, hshort, hlt], hshort.2.1, hshort.1, Char.not_lt.mp hlt⟩

/-- The hexadecimal digits of a control character. -/
theorem hexDigits_of_lt {n : Nat} (h : n < 32) :
    (Text.hexDigits 4 n).all isHex = true ∧ Text.ofHexDigits? (Text.hexDigits 4 n) = some n := by
  have hall : ∀ k < 32,
      (Text.hexDigits 4 k).all isHex = true ∧ Text.ofHexDigits? (Text.hexDigits 4 k) = some k := by
    decide
  exact hall n h

/-- An escape is proper in front of everything that is. -/
theorem isProper_escape (c : Char) (rest : List Char) :
    isProper (escape c ++ rest) = isProper rest := by
  rcases escape_cases c with ⟨letter, h, hu, hlookup⟩ | ⟨hlt, h⟩ | ⟨h, hslash, hquote, hspace⟩
  · simp [h, isProper, hu, hlookup]
  · obtain ⟨hhex, -⟩ := hexDigits_of_lt hlt
    simp only [Text.hexDigits, List.nil_append, List.cons_append, List.all_cons, List.all_nil,
      Bool.and_true, Bool.and_eq_true] at hhex
    simp [h, Text.hexDigits, isProper, hhex]
  · simp [h, isProper, hslash, hquote, hspace]

/-- An escape gives one piece, which stands for its character. -/
theorem exists_piece (c : Char) :
    ∃ piece, (∀ rest, pieces (escape c ++ rest) = piece :: pieces rest) ∧
      ∀ ps, join? (piece :: ps) = (join? ps).map (c :: ·) := by
  rcases escape_cases c with ⟨letter, h, hu, hlookup⟩ | ⟨hlt, h⟩ | ⟨h, hslash, hquote, hspace⟩
  · refine ⟨.char c, fun rest => ?_, fun ps => by rw [join?]⟩
    simp [h, pieces, hu, hlookup]
  · obtain ⟨-, hvalue⟩ := hexDigits_of_lt hlt
    refine ⟨.unit c.toNat, fun rest => ?_, fun ps => ?_⟩
    · simp only [Text.hexDigits, List.nil_append, List.cons_append] at hvalue
      simp [h, Text.hexDigits, pieces, hvalue]
    · have hhigh : ¬ (0xD800 ≤ c.toNat) := by omega
      have hlow : ¬ (0xDC00 ≤ c.toNat) := by omega
      cases ps with
      | nil => simp [join?, hhigh]
      | cons piece ps =>
        cases piece with
        | char d => simp [join?, hhigh]
        | unit n => simp [join?, hhigh, hlow]
  · exact ⟨.char c, fun rest => by simp [h, pieces, hslash], fun ps => by rw [join?]⟩

/-- Every text is written properly. -/
theorem isProper_encode (cs : List Char) : isProper (encode cs).body = true := by
  unfold encode
  induction cs with
  | nil => rfl
  | cons c cs ih => rw [List.flatMap_cons, isProper_escape, ih]

/-- Every text is read back. -/
theorem decode?_encode (cs : List Char) : (encode cs).decode? = some cs := by
  unfold encode decode?
  induction cs with
  | nil => rfl
  | cons c cs ih =>
    obtain ⟨piece, hpieces, hjoin⟩ := exists_piece c
    simp only [List.flatMap_cons, hpieces, hjoin, ih, Option.map_some]

@[simp] theorem text?_ofText (s : String) : (ofText s).text? = some s := by
  rw [text?, ofText, decode?_encode, Option.map_some, String.ofList_toList]

/-- Digits are written as they stand. -/
theorem escape_of_isDigit {c : Char} (h : Text.isDigit c = true) : escape c = [c] := by
  have hne : ∀ d, Text.isDigit d = false → c ≠ d := by
    rintro d hd rfl
    rw [hd] at h
    cases h
  have hspace : ¬ c < ' ' := by
    have hzero : '0' ≤ c := by
      simp only [Text.isDigit, Char.isDigit, Bool.and_eq_true, decide_eq_true_eq] at h
      exact h.1
    exact Char.not_lt.mpr (Char.le_trans (by decide) hzero)
  simp [escape, hspace, hne '"' rfl, hne '\\' rfl, hne '\x08' rfl, hne '\x0c' rfl, hne '\n' rfl,
    hne '\r' rfl, hne '\t' rfl]

theorem encode_digits (n : Nat) : (encode (Text.digits n)).body = Text.digits n := by
  have hescape : ∀ c ∈ Text.digits n, escape c = [c] :=
    fun c hc => escape_of_isDigit (Text.isDigit_of_mem_digits hc)
  rw [encode, List.flatMap_congr hescape, List.flatMap_singleton']

end TelemetryBands.Quoted
