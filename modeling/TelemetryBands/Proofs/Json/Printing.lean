import TelemetryBands.Proofs.Json.Reading

/-!
# Printable texts

Between quotes every control character is escaped, and no other token has one, so the compact text
of a legible document has none: it has no end of a line and no zero character.
-/

namespace TelemetryBands

/-- What is true of no control character is true of printable characters only. -/
theorem Text.le_of_controls {p : Char → Bool} (hnone : ∀ n < 32, p (Char.ofNat n) = false)
    {c : Char} (h : p c = true) : ' ' ≤ c := by
  by_contra hlt
  have hc := hnone c.toNat (Char.not_le.mp hlt)
  rw [Char.ofNat_toNat, h] at hc
  cases hc

/-- Hexadecimal digits are printable. -/
theorem Quoted.le_of_isHex {c : Char} (h : isHex c = true) : ' ' ≤ c :=
  Text.le_of_controls (by decide) h

/-- What is written properly between quotes is printable. -/
theorem Quoted.le_of_isProper {cs : List Char} (h : isProper cs = true) : ∀ c ∈ cs, ' ' ≤ c := by
  fun_induction isProper cs with
  | case1 => exact List.forall_mem_nil _
  | case2 a b c d rest ih =>
    simp only [Bool.and_eq_true] at h
    obtain ⟨⟨⟨⟨ha, hb⟩, hc⟩, hd⟩, hrest⟩ := h
    simp only [List.forall_mem_cons]
    exact ⟨by decide, by decide, le_of_isHex ha, le_of_isHex hb, le_of_isHex hc, le_of_isHex hd,
      ih hrest⟩
  | case3 c rest _ ih =>
    rw [Bool.and_eq_true] at h
    simp only [List.forall_mem_cons]
    exact ⟨by decide, Text.le_of_controls (p := fun c => (shortEscapes.lookup c).isSome) (by decide)
      h.1, ih h.2⟩
  | case4 c rest _ _ ih =>
    simp only [Bool.and_eq_true, decide_eq_true_eq] at h
    exact List.forall_mem_cons.mpr ⟨h.1.2, ih h.2⟩

namespace Json

/-- The text of a legible token is printable. -/
theorem Token.le_of_mem_chars {t : Token} (h : t.Legible) : ∀ c ∈ t.chars, ' ' ≤ c := by
  have hfixed : ∀ {cs : List Char}, cs.all (' ' ≤ ·) = true → ∀ c ∈ cs, ' ' ≤ c := by
    intro cs hall
    simpa only [List.all_eq_true, decide_eq_true_eq] using hall
  cases t with
  | numeral n =>
    obtain ⟨c, cs, hchars, hstart, hrest⟩ := h.start
    rw [chars, hchars, List.forall_mem_cons]
    exact ⟨Text.le_of_controls (by decide) hstart,
      fun d hd => Text.le_of_controls (by decide) (hrest d hd)⟩
  | quoted q =>
    simp only [chars, List.cons_append, List.forall_mem_cons, List.forall_mem_append]
    exact ⟨by decide, Quoted.le_of_isProper h, by decide, by simp⟩
  | bool b => cases b <;> exact hfixed (by decide)
  | openArray | closeArray | openObject | closeObject | comma | colon | null =>
    exact hfixed (by decide)

/-- The compact text of a legible document is printable. -/
theorem le_of_mem_compact {j : Json} (h : j.Legible) : ∀ c ∈ j.compact.toList, ' ' ≤ c := by
  rw [compact, String.toList_ofList]
  intro c hc
  obtain ⟨t, ht, hct⟩ := List.mem_flatMap.mp hc
  exact Token.le_of_mem_chars (h t ht) c hct

end Json

end TelemetryBands
