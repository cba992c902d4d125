import Mathlib.Data.List.DropRight
import TelemetryBands.Text.Blank
import TelemetryBands.Text.Casing

/-!
# The ends of a text

Trimming takes white space from both ends of a text and nothing else, so the trimmed text is known
by its ends. A given ending or beginning is taken off exactly where it stands. Lower case keeps the
length of a text and its white space, and only letters have a lower-case form of their own.
-/

namespace TelemetryBands.Text

variable {cs left middle right rest : List Char} {c d : Char}

/-! ## White space -/

/-- A text of white space only. -/
def AllBlank (cs : List Char) : Prop :=
  ∀ c ∈ cs, isBlank c = true

instance : DecidablePred AllBlank := fun cs =>
  List.decidableBAll (fun c => isBlank c = true) cs

theorem AllBlank.append (hleft : AllBlank left) (hright : AllBlank right) :
    AllBlank (left ++ right) := by
  intro c hc
  rcases List.mem_append.mp hc with hc | hc
  · exact hleft c hc
  · exact hright c hc

/-- No end of a trimmed text is blank. -/
theorem ends_trim (cs : List Char) :
    (∀ c ∈ (trim cs).head?, isBlank c = false) ∧ ∀ c ∈ (trim cs).getLast?, isBlank c = false := by
  constructor
  · intro c hc
    obtain ⟨rest, hrest⟩ := List.rdropWhile_prefix isBlank (cs.dropWhile isBlank)
    have hhead : (cs.dropWhile isBlank).head? = some c := by
      rw [← hrest, List.head?_append]
      exact (congrArg (·.or rest.head?) hc).trans rfl
    have hnot := List.head?_dropWhile_not isBlank cs
    rw [hhead] at hnot
    exact hnot
  · intro c hc
    have hne : trim cs ≠ [] := by
      rintro hnil
      rw [hnil] at hc
      cases hc
    have hlast := List.rdropWhile_last_not isBlank (cs.dropWhile isBlank) hne
    obtain ⟨_, rfl⟩ := List.mem_getLast?_eq_getLast hc
    exact Bool.not_eq_true _ ▸ hlast

/-- White space around a text without blank ends is what is trimmed. -/
theorem trim_append_append_eq (hleft : AllBlank left) (hright : AllBlank right)
    (hhead : ∀ c ∈ middle.head?, isBlank c = false)
    (hlast : ∀ c ∈ middle.getLast?, isBlank c = false) :
    trim (left ++ middle ++ right) = middle := by
  have hfront : (left ++ middle ++ right).dropWhile isBlank =
      (middle ++ right).dropWhile isBlank := by
    rw [List.append_assoc, List.dropWhile_append_of_pos hleft]
  have hback : (middle ++ right).reverse.dropWhile isBlank = middle.reverse.dropWhile isBlank := by
    rw [List.reverse_append,
      List.dropWhile_append_of_pos fun c hc => hright c (List.mem_reverse.mp hc)]
  rw [trim, hfront, dropEnd]
  cases middle with
  | nil =>
    rw [List.nil_append, List.dropWhile_eq_nil_iff.mpr hright]
    rfl
  | cons c middle =>
    rw [List.cons_append, List.dropWhile_cons_of_neg (by simp [hhead c rfl]), ← List.cons_append,
      hback]
    refine List.rdropWhile_eq_self_iff.mpr fun hne => ?_
    rw [hlast _ (List.getLast?_eq_some_getLast hne)]
    exact Bool.false_ne_true

/-- Nothing is trimmed exactly from a text with no blank end. -/
theorem trim_eq_self_iff :
    trim cs = cs ↔
      (∀ c ∈ cs.head?, isBlank c = false) ∧ ∀ c ∈ cs.getLast?, isBlank c = false := by
  constructor
  · intro h
    rw [← h]
    exact ends_trim cs
  · rintro ⟨hhead, hlast⟩
    have hnone : AllBlank [] := nofun
    have halone := trim_append_append_eq hnone hnone hhead hlast
    rwa [List.nil_append, List.append_nil] at halone

theorem trim_trim (cs : List Char) : trim (trim cs) = trim cs :=
  trim_eq_self_iff.mpr (ends_trim cs)

/-- White space around a trimmed text is what is trimmed. -/
theorem trim_surrounded (hleft : AllBlank left) (hright : AllBlank right)
    (h : trim middle = middle) : trim (left ++ middle ++ right) = middle :=
  trim_append_append_eq hleft hright (trim_eq_self_iff.mp h).1 (trim_eq_self_iff.mp h).2

/-- Nothing is trimmed from a text without white space. -/
theorem trim_of_forall (h : ∀ c ∈ cs, isBlank c = false) : trim cs = cs :=
  trim_eq_self_iff.mpr ⟨fun c hc => h c (List.mem_of_head? hc),
    fun c hc => h c (List.mem_of_getLast? hc)⟩

/-- What stands between two texts that are trimmed is not at an end. -/
theorem trim_append_append {first last : List Char} (hfirst : first ≠ []) (hlast : last ≠ [])
    (htrim : trim first = first) (htrim' : trim last = last) (middle : List Char) :
    trim (first ++ middle ++ last) = first ++ middle ++ last := by
  rw [trim_eq_self_iff, List.append_assoc, List.head?_append_of_ne_nil _ hfirst,
    ← List.append_assoc, List.getLast?_append_of_ne_nil _ hlast]
  exact ⟨(trim_eq_self_iff.mp htrim).1, (trim_eq_self_iff.mp htrim').2⟩

/-- Only white space is trimmed. -/
theorem exists_trim (cs : List Char) :
    ∃ left right, AllBlank left ∧ AllBlank right ∧ cs = left ++ trim cs ++ right := by
  refine ⟨cs.takeWhile isBlank, (cs.dropWhile isBlank).rtakeWhile isBlank,
    fun _ => List.mem_takeWhile_imp, fun _ => List.mem_rtakeWhile_imp, ?_⟩
  have hback : trim cs ++ (cs.dropWhile isBlank).rtakeWhile isBlank = cs.dropWhile isBlank :=
    List.rdropWhile_append_rtakeWhile
  rw [List.append_assoc, hback, List.takeWhile_append_dropWhile]

/-- White space behind a text is trimmed with the white space at its end. -/
theorem trim_append_right (hright : AllBlank right) (cs : List Char) :
    trim (cs ++ right) = trim cs := by
  obtain ⟨left, ending, hleft, hending, hcs⟩ := exists_trim cs
  calc trim (cs ++ right)
      = trim (left ++ trim cs ++ (ending ++ right)) := by rw [← List.append_assoc, ← hcs]
    _ = trim cs := trim_surrounded hleft (hending.append hright) (trim_trim cs)

/-- Nothing is left exactly of white space. -/
theorem trim_eq_nil_iff : trim cs = [] ↔ AllBlank cs := by
  constructor
  · intro h
    obtain ⟨left, right, hleft, hright, hcs⟩ := exists_trim cs
    rw [h, List.append_nil] at hcs
    rw [hcs]
    exact hleft.append hright
  · intro h
    have htrim := trim_append_right h []
    rwa [List.nil_append] at htrim

/-! ## Endings and beginnings -/

theorem dropEnding?_eq_some_iff {ending : List Char} :
    dropEnding? ending cs = some rest ↔ cs = rest ++ ending := by
  unfold dropEnding?
  constructor
  · intro h
    obtain ⟨hsuffix, hrest⟩ := Option.ite_none_right_eq_some.mp h
    obtain rfl := Option.some.inj hrest
    obtain ⟨front, rfl⟩ := List.isSuffixOf_iff_suffix.mp hsuffix
    rw [List.length_append, Nat.add_sub_cancel, List.take_left]
  · rintro rfl
    rw [if_pos (List.isSuffixOf_iff_suffix.mpr (List.suffix_append rest ending)),
      List.length_append, Nat.add_sub_cancel, List.take_left]

theorem dropEnding?_eq_none_iff {ending : List Char} :
    dropEnding? ending cs = none ↔ ¬ ending <:+ cs := by
  unfold dropEnding?
  rw [← List.isSuffixOf_iff_suffix]
  split <;> simp_all

theorem dropBeginning?_eq_some_iff {beginning : List Char} :
    dropBeginning? beginning cs = some rest ↔ cs = beginning ++ rest := by
  fun_induction dropBeginning? beginning cs with
  | case1 cs => rw [Option.some.injEq, List.nil_append]
  | case2 => simp
  | case3 b beginning cs ih => rw [ih, List.cons_append, List.cons.injEq, and_iff_right rfl]
  | case4 b beginning c cs hne =>
    refine iff_of_false nofun fun h => hne ?_
    exact (List.cons.inj h).1.symm

/-! ## Lower case -/

/-- A capital letter has a lower-case letter for its lower-case form. -/
theorem toNat_toLower (c : Char) :
    c.toLower = c ∨ (65 ≤ c.toNat ∧ c.toNat ≤ 90 ∧ c.toLower.toNat = c.toNat + 32) := by
  unfold Char.toLower
  split
  · rename_i h
    right
    have hlow : 65 ≤ c.toNat := h.1
    have hhigh : c.toNat ≤ 90 := h.2
    refine ⟨hlow, hhigh, ?_⟩
    show (c.val + 32).toNat = c.val.toNat + 32
    rw [UInt32.toNat_add, Nat.mod_eq_of_lt]
    · rfl
    · show c.toNat + 32 < 2 ^ 32
      omega
  · exact Or.inl rfl

/-- A character is its own lower-case form, unless it is a letter. -/
theorem lowerChar_cases (c : Char) :
    lowerChar c = c ∨ (97 ≤ (lowerChar c).toNat ∧ (lowerChar c).toNat ≤ 122 ∧ 65 ≤ c.toNat ∧
      isBlank c = false) := by
  unfold lowerChar
  split
  · rename_i hkelvin
    rw [hkelvin]
    decide
  · rcases toNat_toLower c with hself | ⟨hlow, hhigh, hlower⟩
    · exact Or.inl hself
    · refine Or.inr ⟨by omega, by omega, hlow, ?_⟩
      simp [isBlank, blankRanges]
      omega

theorem lower_append (left right : List Char) :
    lower (left ++ right) = lower left ++ lower right :=
  List.map_append

/-- Lower case keeps white space. -/
theorem isBlank_lowerChar (c : Char) : isBlank (lowerChar c) = isBlank c := by
  rcases lowerChar_cases c with hself | ⟨hlow, hhigh, -, hblank⟩
  · rw [hself]
  · rw [hblank]
    simp [isBlank, blankRanges]
    omega

theorem allBlank_lower_iff : AllBlank (lower cs) ↔ AllBlank cs := by
  unfold AllBlank lower
  rw [List.forall_mem_map]
  exact forall₂_congr fun c hc => by rw [isBlank_lowerChar]

/-- Only a letter has another character for its lower-case form. -/
theorem lowerChar_eq_iff (hd : d.toNat < 65) : lowerChar c = d ↔ c = d := by
  constructor
  · rintro rfl
    rcases lowerChar_cases c with hself | ⟨hlow, -⟩
    · exact hself.symm
    · omega
  · rintro rfl
    rcases lowerChar_cases c with hself | ⟨-, -, hletter, -⟩
    · exact hself
    · omega

end TelemetryBands.Text
