import Mathlib
import TelemetryBands.Delivery.SubscriptionId
import TelemetryBands.Proofs.Text.Ends

/-!
# Identifiers are read back

A 128-bit number is determined by its 32 hexadecimal digits, and the groups of digits by the hyphens
between them. So the text that shows an identifier names this identifier.
-/

namespace TelemetryBands

namespace Text

variable {cs : List Char} {separator c : Char}

@[simp] theorem length_hexDigits (width n : Nat) : (hexDigits width n).length = width := by
  induction width generalizing n with
  | zero => rfl
  | succ width ih => simp [hexDigits, ih]

theorem exists_of_mem_hexDigits {width n : Nat} (h : c ∈ hexDigits width n) :
    ∃ d < 16, c = Nat.digitChar d := by
  induction width generalizing n with
  | zero => cases h
  | succ width ih =>
    rcases List.mem_append.mp h with h | h
    · exact ih h
    · exact ⟨n % 16, Nat.mod_lt n (by decide), List.mem_singleton.mp h⟩

theorem hexValue?_hexDigit (n : Nat) : hexValue? (hexDigit n) = some (n % 16) := by
  have hall : ∀ d < 16, hexValue? (Nat.digitChar d) = some d := by decide
  exact hall (n % 16) (Nat.mod_lt n (by decide))

theorem ofHexDigits?_append_singleton (cs : List Char) (c : Char) :
    ofHexDigits? (cs ++ [c]) =
      (ofHexDigits? cs).bind fun value => (hexValue? c).map (16 * value + ·) := by
  simp [ofHexDigits?, List.foldlM_append]

/-- The lowest digits of a number denote its remainder. -/
theorem ofHexDigits?_hexDigits (width n : Nat) :
    ofHexDigits? (hexDigits width n) = some (n % 16 ^ width) := by
  induction width generalizing n with
  | zero =>
    rw [Nat.pow_zero, Nat.mod_one]
    rfl
  | succ width ih =>
    rw [hexDigits, ofHexDigits?_append_singleton, ih, Option.bind_some, hexValue?_hexDigit,
      Option.map_some, Nat.pow_succ', Nat.mod_mul, Nat.add_comm]

theorem splitAtChar_eq_splitOn (separator : Char) (cs : List Char) :
    splitAtChar separator cs = cs.splitOn separator := by
  induction cs with
  | nil => exact (List.splitOn_nil separator).symm
  | cons c cs ih =>
    rw [List.splitOn] at ih
    rw [splitAtChar, List.splitOn, List.splitOnP_cons_eq_if_modifyHead, ih]
    have hne := List.splitOnP_ne_nil (· == separator) cs
    simp only [beq_iff_eq]
    cases hpieces : cs.splitOnP (· == separator) with
    | nil => exact absurd hpieces hne
    | cons piece pieces => rfl

theorem mem_intercalate {pieces : List (List Char)} (h : c ∈ [separator].intercalate pieces) :
    c = separator ∨ ∃ piece ∈ pieces, c ∈ piece := by
  induction pieces with
  | nil => simp at h
  | cons piece pieces ih =>
    cases pieces with
    | nil => exact Or.inr ⟨piece, List.mem_cons_self, by simpa using h⟩
    | cons next pieces =>
      rw [List.intercalate_cons_cons, List.append_assoc, List.mem_append, List.mem_append,
        List.mem_singleton] at h
      rcases h with h | h | h
      · exact Or.inr ⟨piece, List.mem_cons_self, h⟩
      · exact Or.inl h
      · rcases ih h with h | ⟨other, hmem, h⟩
        · exact Or.inl h
        · exact Or.inr ⟨other, List.mem_cons_of_mem piece hmem, h⟩

theorem length_intercalate (separator : Char) {pieces : List (List Char)} (hne : pieces ≠ []) :
    ([separator].intercalate pieces).length + 1 = pieces.flatten.length + pieces.length := by
  induction pieces with
  | nil => exact absurd rfl hne
  | cons piece pieces ih =>
    cases pieces with
    | nil => simp
    | cons next pieces =>
      have hrest := ih (List.cons_ne_nil _ _)
      rw [List.intercalate_cons_cons, List.flatten_cons]
      simp only [List.length_append, List.length_cons, List.length_nil] at hrest ⊢
      omega

end Text

namespace SubscriptionId

/-- Pieces of a text hold its characters in their order. -/
theorem flatten_cut (lengths : List Nat) (cs : List Char) :
    (cut lengths cs).flatten = cs.take lengths.sum := by
  induction lengths generalizing cs with
  | nil => rfl
  | cons n lengths ih => rw [cut, List.flatten_cons, ih, List.sum_cons, List.take_add]

theorem map_length_cut {lengths : List Nat} {cs : List Char} (h : lengths.sum ≤ cs.length) :
    (cut lengths cs).map List.length = lengths := by
  induction lengths generalizing cs with
  | nil => rfl
  | cons n lengths ih =>
    rw [List.sum_cons] at h
    have hrest : lengths.sum ≤ (cs.drop n).length := by
      rw [List.length_drop]
      omega
    rw [cut, List.map_cons, ih hrest, List.length_take, Nat.min_eq_left (by omega)]

/-- The identifiers that 32 digits can show. -/
def IsShown (id : SubscriptionId) : Prop :=
  id.number < 16 ^ 32

/-- The number of identifiers that can be issued before the digits run out. -/
def supply : Nat := 16 ^ 32 - base

theorem isShown_issue {n : Nat} (h : n < supply) : (issue n).IsShown := by
  unfold supply at h
  unfold IsShown issue
  have hbase : base < 16 ^ 32 := by decide
  simp only
  omega

/-- The groups of digits of an identifier. -/
def groups (id : SubscriptionId) : List (List Char) :=
  cut groupLengths (Text.hexDigits 32 id.number)

theorem flatten_groups (id : SubscriptionId) :
    id.groups.flatten = Text.hexDigits 32 id.number := by
  rw [groups, flatten_cut, List.take_of_length_le]
  rw [Text.length_hexDigits]
  decide

theorem map_length_groups (id : SubscriptionId) : id.groups.map List.length = groupLengths := by
  apply map_length_cut
  rw [Text.length_hexDigits]
  decide

/-- The groups hold neither white space nor hyphens. -/
theorem isPlain_of_mem_groups {id : SubscriptionId} {piece : List Char} (hpiece : piece ∈ id.groups)
    {c : Char} (hc : c ∈ piece) : Text.isBlank c = false ∧ c ≠ '-' := by
  have hdigit : ∀ d < 16, Text.isBlank (Nat.digitChar d) = false ∧ Nat.digitChar d ≠ '-' := by
    decide
  have hmem : c ∈ Text.hexDigits 32 id.number := by
    rw [← flatten_groups]
    exact List.mem_flatten_of_mem hpiece hc
  obtain ⟨d, hd, rfl⟩ := Text.exists_of_mem_hexDigits hmem
  exact hdigit d hd

theorem groups_ne_nil (id : SubscriptionId) : id.groups ≠ [] :=
  List.cons_ne_nil _ _

/-- The groups with their hyphens are too long for digits only. -/
theorem plain?_groups (id : SubscriptionId) : plain? (['-'].intercalate id.groups) = none := by
  have hlength := Text.length_intercalate '-' id.groups_ne_nil
  have hcount : id.groups.length = 5 := by
    rw [← List.length_map List.length, map_length_groups]
    rfl
  rw [flatten_groups, Text.length_hexDigits, hcount] at hlength
  rw [plain?, if_neg (by omega)]

theorem grouped?_groups {id : SubscriptionId} (h : id.IsShown) :
    grouped? (['-'].intercalate id.groups) = some id := by
  have hsplit : Text.splitAtChar '-' (['-'].intercalate id.groups) = id.groups := by
    rw [Text.splitAtChar_eq_splitOn]
    refine List.splitOn_intercalate '-' (fun piece hpiece hmem => ?_) id.groups_ne_nil
    exact (isPlain_of_mem_groups hpiece hmem).2 rfl
  have hvalue : id.number % 16 ^ 32 = id.number := Nat.mod_eq_of_lt h
  simp only [grouped?, hsplit, map_length_groups, if_true, flatten_groups, plain?,
    Text.length_hexDigits, Text.ofHexDigits?_hexDigits, hvalue, Option.map_some]

/-- The text of an identifier names it. -/
theorem ofText?_text {id : SubscriptionId} (h : id.IsShown) : ofText? id.text = some id := by
  have htext : id.text.toList = ['-'].intercalate id.groups := String.toList_ofList
  have htrim : Text.trim (['-'].intercalate id.groups) = ['-'].intercalate id.groups := by
    apply Text.trim_of_forall
    intro c hc
    rcases Text.mem_intercalate hc with rfl | ⟨piece, hpiece, hmem⟩
    · decide
    · exact (isPlain_of_mem_groups hpiece hmem).1
  simp only [ofText?, htext, htrim, plain?_groups, grouped?_groups h]
  rfl

end SubscriptionId

end TelemetryBands
