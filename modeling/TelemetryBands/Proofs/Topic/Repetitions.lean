import TelemetryBands.Proofs.Decimal.Signs
import TelemetryBands.Proofs.Text.Ends
import TelemetryBands.Topic.Repetition

/-!
# Counts and durations in repeat policies

A text is a count where digits have a mark behind them or before them, and a duration where digits
stand before a unit or alone. Both readings forget white space and letter case, each in its own
places. No unit ends in a mark and no number of a duration starts with one, so the readings exclude
each other whatever the digits are. Durations are read from digits without a sign, so none is
negative.
-/

namespace TelemetryBands

/-- The durations of a policy. -/
def RepeatPolicy.durations : RepeatPolicy → List Millis
  | .duration ms => [ms]
  | .count _ period => period.toList

namespace Text

variable {cs : List Char} {n limit : Nat}

/-- A text that denotes a number: digits, with a plus sign in front or without one. -/
def Denotes (cs : List Char) (n : Nat) : Prop :=
  ∃ ds, (cs = ds ∨ cs = '+' :: ds) ∧ isDigits ds = true ∧ ofDigits ds = n

theorem isDigits_plus (ds : List Char) : isDigits ('+' :: ds) = false := by
  simp [isDigits, isDigit]

/-- Bounded numbers are read from the texts that denote them. -/
theorem natural?_eq_some_iff : natural? limit cs = some n ↔ Denotes cs n ∧ n < limit := by
  have hread : ∀ ds, (if isDigits ds && ofDigits ds < limit then some (ofDigits ds) else none) =
      some n ↔ (isDigits ds = true ∧ ofDigits ds = n) ∧ n < limit := by
    intro ds
    rw [Option.ite_none_right_eq_some, Bool.and_eq_true, decide_eq_true_iff, Option.some.injEq]
    constructor
    · rintro ⟨⟨hdigits, hlt⟩, rfl⟩
      exact ⟨⟨hdigits, rfl⟩, hlt⟩
    · rintro ⟨⟨hdigits, rfl⟩, hlt⟩
      exact ⟨⟨hdigits, hlt⟩, rfl⟩
  unfold natural?
  simp only
  rw [hread]
  refine and_congr_left fun _ => ?_
  split
  · rename_i rest
    refine ⟨fun h => ⟨rest, Or.inr rfl, h⟩, ?_⟩
    rintro ⟨ds, rfl | heq, h⟩
    · rw [isDigits_plus] at h
      cases h.1
    · rwa [(List.cons.inj heq).2]
  · rename_i hplus
    refine ⟨fun h => ⟨cs, Or.inl rfl, h⟩, ?_⟩
    rintro ⟨ds, rfl | heq, h⟩
    · exact h
    · exact absurd heq (hplus ds)

theorem Denotes.ne_nil (h : Denotes cs n) : cs ≠ [] := by
  obtain ⟨ds, rfl | rfl, hdigits, -⟩ := h
  · rintro rfl
    cases hdigits
  · exact List.cons_ne_nil _ _

/-- The characters of a number stand below the letters and are not blank. -/
theorem Denotes.of_mem (h : Denotes cs n) {c : Char} (hc : c ∈ cs) :
    c.toNat < 65 ∧ isBlank c = false := by
  have hdigit : ∀ {d : Char}, d.isDigit = true → d.toNat < 65 ∧ isBlank d = false := by
    intro d hd
    simp only [Char.isDigit, Bool.and_eq_true, decide_eq_true_eq] at hd
    have hlow : 48 ≤ d.toNat := hd.1
    have hhigh : d.toNat ≤ 57 := hd.2
    refine ⟨by omega, ?_⟩
    simp [isBlank, blankRanges]
    omega
  obtain ⟨ds, hcs, hdigits, -⟩ := h
  have hall : ∀ d ∈ ds, d.toNat < 65 ∧ isBlank d = false := by
    intro d hd
    simp only [isDigits, Bool.and_eq_true, List.all_eq_true] at hdigits
    exact hdigit (hdigits.2 d hd)
  rcases hcs with rfl | rfl
  · exact hall c hc
  · rcases List.mem_cons.mp hc with rfl | hc
    · decide
    · exact hall c hc

/-- A number is its own lower-case form, and nothing else has it for one. -/
theorem Denotes.lower_eq_iff (h : Denotes cs n) {other : List Char} :
    lower other = cs ↔ other = cs := by
  have hself : lower cs = cs := by
    conv_rhs => rw [← List.map_id cs]
    exact List.map_congr_left fun c hc => (lowerChar_eq_iff (h.of_mem hc).1).mpr rfl
  constructor
  · rintro rfl
    conv_lhs => rw [← List.map_id other]
    refine List.map_congr_left fun c hc => ?_
    have hmem : lowerChar c ∈ lower other := List.mem_map_of_mem hc
    exact (lowerChar_eq_iff (h.of_mem hmem).1).mp rfl
  · rintro rfl
    exact hself

end Text

namespace WrittenRepetition

open Text

variable {cs body numeral : List Char} {n : Nat} {s : String} {max : UInt32}

/-- The marks that may stand behind the number of a count. -/
def countMarks : List (List Char) :=
  [['t', 'i', 'm', 'e', 's'], ['t', 'i', 'm', 'e'], ['x']]

/-- A text that writes a number of times: the number has one of the marks behind it or an `x` before
it, in any letter case, and white space may stand around both. -/
inductive CountText (numeral : List Char) : List Char → Prop where
  | behind {left gap mark right : List Char} (hleft : AllBlank left) (hgap : AllBlank gap)
      (hright : AllBlank right) (hmark : lower mark ∈ countMarks) :
    CountText numeral (left ++ (numeral ++ gap ++ mark) ++ right)
  | before {left mark gap right : List Char} (hleft : AllBlank left) (hgap : AllBlank gap)
      (hright : AllBlank right) (hmark : lower mark = ['x']) :
    CountText numeral (left ++ (mark ++ gap ++ numeral) ++ right)

/-- What a mark is taken off. -/
theorem countBody?_cases (h : countBody? cs = some body) :
    (∃ mark ∈ countMarks, cs = body ++ mark) ∨ cs = 'x' :: body := by
  unfold countBody? at h
  simp only [Option.orElse_eq_orElse, Option.orElse_eq_or, Option.or_eq_some_iff,
    dropEnding?_eq_some_iff, dropBeginning?_eq_some_iff] at h
  rcases h with h | ⟨-, h | ⟨-, h | ⟨-, h⟩⟩⟩
  · exact Or.inl ⟨_, by simp [countMarks], h⟩
  · exact Or.inl ⟨_, by simp [countMarks], h⟩
  · exact Or.inl ⟨_, by simp [countMarks], h⟩
  · exact Or.inr h

/-- A text that is read as a count has the form of one. -/
theorem exists_countText (h : count? s = some max) :
    ∃ numeral, CountText numeral s.toList ∧ Denotes numeral max.toNat := by
  obtain ⟨body, hbody, hmax⟩ := Option.bind_eq_some_iff.mp h
  obtain ⟨n, hn, rfl⟩ := Option.map_eq_some_iff.mp hmax
  obtain ⟨hdenotes, hlt⟩ := natural?_eq_some_iff.mp hn
  have hword : (UInt32.ofNat n).toNat = n := by
    rw [UInt32.toNat_ofNat']
    exact Nat.mod_eq_of_lt hlt
  rw [hword]
  refine ⟨trim body, ?_, hdenotes⟩
  obtain ⟨left, right, hleft, hright, hs⟩ := exists_trim s.toList
  obtain ⟨front, back, hfront, hback, hsplit⟩ := exists_trim body
  -- The parts of the lower-case text are the lower-case forms of parts of the text.
  have hparts : ∀ {part : List Char}, lower part = body → ∃ a gap, AllBlank a ∧ AllBlank gap ∧
      part = a ++ trim body ++ gap := by
    intro part hpart
    rw [hsplit] at hpart
    obtain ⟨rest, gap, rfl, hrest, hgap⟩ := List.map_eq_append_iff.mp hpart
    obtain ⟨a, middle, rfl, ha, hmiddle⟩ := List.map_eq_append_iff.mp hrest
    obtain rfl := hdenotes.lower_eq_iff.mp hmiddle
    refine ⟨a, gap, allBlank_lower_iff.mp ?_, allBlank_lower_iff.mp ?_, rfl⟩
    · rwa [show lower a = front from ha]
    · rwa [show lower gap = back from hgap]
  rw [hs]
  rcases countBody?_cases hbody with ⟨mark, hmark, hmarked⟩ | hmarked
  · obtain ⟨part, written, hpart, hlower, rfl⟩ := List.map_eq_append_iff.mp hmarked
    obtain ⟨a, gap, ha, hgap, rfl⟩ := hparts hlower
    have htext : CountText (trim body) _ :=
      CountText.behind (hleft.append ha) hgap hright hmark
    simpa only [hpart, List.append_assoc] using htext
  · obtain ⟨c, part, hpart, hc, hlower⟩ := List.map_eq_cons_iff.mp hmarked
    obtain ⟨a, gap, ha, hgap, rfl⟩ := hparts hlower
    have hmark : lower [c] = ['x'] := congrArg ([·]) hc
    have htext : CountText (trim body) _ :=
      CountText.before hleft ha (hgap.append hright) hmark
    simpa only [hpart, List.append_assoc, List.cons_append, List.nil_append] using htext

/-- A mark consists of letters. -/
theorem of_mem_mark {mark : List Char} (h : lower mark ∈ countMarks) :
    mark ≠ [] ∧ ∀ c ∈ mark, isBlank c = false ∧ c ≠ ',' ∧ c ≠ '_' := by
  have hletters : ∀ m ∈ countMarks, m ≠ [] ∧ ∀ d ∈ m, 97 ≤ d.toNat ∧ d.toNat ≤ 122 := by
    simp [countMarks]
  obtain ⟨hne, hall⟩ := hletters _ h
  refine ⟨fun hnil => hne (by rw [hnil]; rfl), fun c hc => ?_⟩
  obtain ⟨hlow, hhigh⟩ := hall (lowerChar c) (List.mem_map_of_mem hc)
  refine ⟨?_, ?_, ?_⟩
  · rw [← isBlank_lowerChar]
    simp [isBlank, blankRanges]
    omega
  · rintro rfl
    exact absurd hlow (by decide)
  · rintro rfl
    exact absurd hlow (by decide)

theorem not_suffix_of_getLast? {ending : List Char} {c : Char} (hending : ending.getLast? = some c)
    (hcs : cs.getLast? ≠ some c) : ¬ ending <:+ cs := by
  rintro ⟨front, rfl⟩
  have hne : ending ≠ [] := by
    rintro rfl
    cases hending
  exact hcs ((List.getLast?_append_of_ne_nil front hne).trans hending)

theorem countBody?_behind {mark : List Char} (hmark : mark ∈ countMarks) (body : List Char) :
    countBody? (body ++ mark) = some body := by
  unfold countBody?
  simp only [countMarks, List.mem_cons, List.not_mem_nil, or_false] at hmark
  have hlast : ∀ {ending : List Char} {c : Char}, ending.getLast? = some c →
      mark.getLast? ≠ some c → mark ≠ [] → dropEnding? ending (body ++ mark) = none := by
    intro ending c hending hne hmark
    refine dropEnding?_eq_none_iff.mpr (not_suffix_of_getLast? hending ?_)
    rwa [List.getLast?_append_of_ne_nil body hmark]
  have htimes : "times".toList = ['t', 'i', 'm', 'e', 's'] := rfl
  have htime : "time".toList = ['t', 'i', 'm', 'e'] := rfl
  rw [htimes, htime]
  rcases hmark with rfl | rfl | rfl
  · rw [dropEnding?_eq_some_iff.mpr rfl]
    rfl
  · rw [hlast (c := 's') rfl (by decide) (by decide), dropEnding?_eq_some_iff.mpr rfl]
    rfl
  · rw [hlast (c := 's') rfl (by decide) (by decide), hlast (c := 'e') rfl (by decide) (by decide),
      dropEnding?_eq_some_iff.mpr rfl]
    rfl

theorem countBody?_before (hbody : ∀ c ∈ body.getLast?, c.toNat < 65) (hne : body ≠ []) :
    countBody? ('x' :: body) = some body := by
  unfold countBody?
  have hlast : ∀ {ending : List Char} {c : Char}, ending.getLast? = some c → 65 ≤ c.toNat →
      dropEnding? ending ('x' :: body) = none := by
    intro ending c hending hc
    refine dropEnding?_eq_none_iff.mpr (not_suffix_of_getLast? hending fun heq => ?_)
    rw [← List.singleton_append, List.getLast?_append_of_ne_nil _ hne] at heq
    have := hbody c heq
    omega
  rw [hlast (c := 's') rfl (by decide), hlast (c := 'e') rfl (by decide),
    hlast (c := 'x') rfl (by decide)]
  rfl

/-- A text of the form of a count is read as one if its number fits 32 bits. -/
theorem count?_of_countText (h : CountText numeral s.toList)
    (hnumeral : Denotes numeral max.toNat) : count? s = some max := by
  have hread : ∀ body : List Char, countBody? (lower (trim s.toList)) = some body →
      trim body = numeral → count? s = some max := by
    intro body hbody htrim
    have hnatural : natural? limit32 numeral = some max.toNat :=
      natural?_eq_some_iff.mpr ⟨hnumeral, max.toNat_lt⟩
    rw [count?, hbody, Option.bind_some, htrim, hnatural, Option.map_some, UInt32.ofNat_toNat]
  have hself : trim numeral = numeral := trim_of_forall fun c hc => (hnumeral.of_mem hc).2
  have hlower : lower numeral = numeral := hnumeral.lower_eq_iff.mpr rfl
  have hnone : AllBlank [] := nofun
  generalize htext : s.toList = cs at h
  cases h with
  | @behind left gap mark right hleft hgap hright hmark =>
    obtain ⟨hne, hletters⟩ := of_mem_mark hmark
    have hends := trim_append_append hnumeral.ne_nil hne hself
      (trim_of_forall fun c hc => (hletters c hc).1) gap
    refine hread (numeral ++ lower gap) ?_ ?_
    · rw [htext, trim_surrounded hleft hright hends, lower_append, lower_append, hlower]
      exact countBody?_behind hmark _
    · have hbody := trim_surrounded hnone (allBlank_lower_iff.mpr hgap) hself
      rwa [List.nil_append] at hbody
  | @before left mark gap right hleft hgap hright hmark =>
    have hmem : lower mark ∈ countMarks := by
      rw [hmark]
      decide
    obtain ⟨hne, hletters⟩ := of_mem_mark hmem
    have hends := trim_append_append hne hnumeral.ne_nil
      (trim_of_forall fun c hc => (hletters c hc).1) hself gap
    refine hread (lower gap ++ numeral) ?_ ?_
    · rw [htext, trim_surrounded hleft hright hends, lower_append, lower_append, hlower, hmark]
      refine countBody?_before (fun c hc => ?_) (by simp [hnumeral.ne_nil])
      change c ∈ (lower gap ++ numeral).getLast? at hc
      rw [List.getLast?_append_of_ne_nil _ hnumeral.ne_nil] at hc
      exact (hnumeral.of_mem (List.mem_of_getLast? hc)).1
    · have hbody := trim_surrounded (allBlank_lower_iff.mpr hgap) hnone hself
      rwa [List.append_nil] at hbody

theorem count?_eq_some_iff :
    count? s = some max ↔ ∃ numeral, CountText numeral s.toList ∧ Denotes numeral max.toNat :=
  ⟨exists_countText, fun ⟨_, htext, hnumeral⟩ => count?_of_countText htext hnumeral⟩

end WrittenRepetition

namespace WrittenDuration

open Text WrittenRepetition

variable {cs left right numeral : List Char} {s : String} {ms : Millis}

theorem simplify_append (left right : List Char) :
    simplify (left ++ right) = simplify left ++ simplify right := by
  rw [simplify, List.filter_append, lower_append]
  rfl

theorem simplify_of_allBlank (h : AllBlank cs) : simplify cs = [] := by
  rw [simplify, List.filter_eq_nil_iff.mpr fun c hc => by simp [h c hc]]
  rfl

/-- Nothing is taken from a mark. -/
theorem simplify_mark {mark : List Char} (h : lower mark ∈ countMarks) :
    simplify mark = lower mark := by
  rw [simplify, List.filter_eq_self.mpr fun c hc => ?_]
  obtain ⟨hblank, hcomma, hunder⟩ := (of_mem_mark h).2 c hc
  simp [hblank, hcomma, hunder]

/-- The names of the units. -/
def unitNames : List (List Char) :=
  [[], ['m', 's'], ['s'], ['s', 'e', 'c'], ['s', 'e', 'c', 's'], ['m'], ['m', 'i', 'n'],
   ['m', 'i', 'n', 's'], ['h'], ['h', 'r'], ['h', 'r', 's']]

/-- A unit has one of the names, and its milliseconds are written without a sign. -/
theorem of_unitMillis? {name : List Char} {x : Float} (h : unitMillis? name = some x) :
    name ∈ unitNames ∧ Decimal.IsPlainFloat x := by
  have hname : ∀ {s : String}, String.ofList name = s → name = s.toList := by
    intro s hs
    rw [← hs, String.toList_ofList]
  unfold unitMillis? at h
  split at h
  case h_12 => cases h
  all_goals
    rename_i hs
    obtain rfl := Option.some.inj h
    rw [hname hs]
    exact ⟨by decide, Decimal.isPlainFloat_ofScientific _ _ _⟩

/-- No unit ends in a mark. -/
theorem unitMillis?_mark {mark : List Char} (hmark : mark ∈ countMarks) (front : List Char) :
    unitMillis? (front ++ mark) = none := by
  have hends : ∀ m ∈ countMarks, ∀ name ∈ unitNames, ¬ m <:+ name := by decide
  rw [Option.eq_none_iff_forall_ne_some]
  intro x hx
  exact hends mark hmark _ (of_unitMillis? hx).1 (List.suffix_append front mark)

/-- What follows the number in a text with a mark at its end has the mark at its end. -/
theorem exists_dropWhile {mark : List Char} (hmark : mark ∈ countMarks) (front : List Char) :
    ∃ rest, (front ++ mark).dropWhile isNumeric = rest ++ mark := by
  have hhead : mark.dropWhile isNumeric = mark := by
    simp only [countMarks, List.mem_cons, List.not_mem_nil, or_false] at hmark
    rcases hmark with rfl | rfl | rfl <;> rfl
  rw [List.dropWhile_append, hhead]
  split
  · exact ⟨[], rfl⟩
  · exact ⟨_, rfl⟩

/-- A text of the form of a count is no duration, whatever its number is. -/
theorem exists_flaw_of_countText (h : CountText numeral s.toList) :
    ∃ flaw, ofText s = .error flaw := by
  have hempty : ∀ rest : List Char, simplify s.toList = 'x' :: rest →
      ofText s = .error (.unreadable s) := by
    intro rest hsimple
    rw [ofText, hsimple]
    rfl
  have hunit : ∀ front {mark : List Char}, mark ∈ countMarks → simplify s.toList = front ++ mark →
      ∃ flaw, ofText s = .error flaw := by
    intro front mark hmark hsimple
    obtain ⟨rest, hrest⟩ := exists_dropWhile hmark front
    rw [ofText, hsimple, hrest]
    simp only [unitMillis?_mark hmark]
    split
    · exact ⟨_, rfl⟩
    · exact ⟨_, rfl⟩
  generalize htext : s.toList = cs at h
  cases h with
  | @behind left gap mark right hleft hgap hright hmark =>
    refine hunit (simplify numeral) hmark ?_
    simp only [htext, simplify_append, simplify_of_allBlank hleft, simplify_of_allBlank hgap,
      simplify_of_allBlank hright, simplify_mark hmark, List.nil_append, List.append_nil]
  | @before left mark gap right hleft hgap hright hmark =>
    have hmem : lower mark ∈ countMarks := by
      rw [hmark]
      simp [countMarks]
    refine ⟨_, hempty (simplify numeral) ?_⟩
    simp only [htext, simplify_append, simplify_of_allBlank hleft, simplify_of_allBlank hgap,
      simplify_of_allBlank hright, simplify_mark hmem, hmark, List.nil_append, List.append_nil,
      List.cons_append]

/-- A duration that a text writes is not negative, however large its number is. -/
theorem zero_le_of_ofText (h : ofText s = .ok ms) : 0 ≤ ms := by
  unfold ofText at h
  simp only at h
  split at h
  · cases h
  · rename_i x hx
    split at h
    · cases h
    · rename_i unit hunit
      obtain rfl := Except.ok.inj h
      have hnumber : Decimal.IsPlainFloat x := by
        refine Decimal.isPlainFloat_of_float? (fun hminus => ?_) hx
        have hnumeric := List.mem_takeWhile_imp (List.mem_of_head? hminus)
        cases hnumeric
      exact Millis.zero_le_ofFloat (hnumber.mul (of_unitMillis? hunit).2).not_lt_zero

theorem zero_le_of_value {d : WrittenDuration} (h : d.value = .ok ms) : 0 ≤ ms := by
  cases d with
  | number x =>
    unfold value at h
    simp only at h
    split at h
    · cases h
    · rename_i hnot
      obtain rfl := Except.ok.inj h
      simp at hnot
      exact Millis.zero_le_ofFloat hnot.2
  | text s => exact zero_le_of_ofText h

end WrittenDuration

namespace WrittenRepetition

open Text

variable {s : String} {max : UInt32} {period : Option Millis} {ms : Millis}
  {w : WrittenRepetition} {d : WrittenDuration} {policy : RepeatPolicy}

/-- A text is read as a count where it has the form of one and its number fits 32 bits. -/
theorem value_text_eq_count_iff : (text s).value = .ok (.count max period) ↔
    period = none ∧ ∃ numeral, CountText numeral s.toList ∧ Denotes numeral max.toNat := by
  rw [← count?_eq_some_iff, value]
  cases hcount : count? s with
  | some m =>
    simp only [Except.ok.injEq, RepeatPolicy.count.injEq, Option.some.injEq]
    exact ⟨fun ⟨hmax, hperiod⟩ => ⟨hperiod.symm, hmax⟩, fun ⟨hperiod, hmax⟩ => ⟨hmax, hperiod.symm⟩⟩
  | none =>
    simp only [ofDuration]
    split <;> simp

/-- A text that is read as a count is no duration. -/
theorem exists_flaw_of_count? (h : count? s = some max) :
    ∃ flaw, WrittenDuration.ofText s = .error flaw := by
  obtain ⟨numeral, htext, -⟩ := exists_countText h
  exact WrittenDuration.exists_flaw_of_countText htext

/-- A text is read as a duration where it is one. -/
theorem value_text_eq_duration_iff : (text s).value = .ok (.duration ms) ↔
    WrittenDuration.ofText s = .ok ms := by
  rw [value]
  cases hcount : count? s with
  | some m =>
    obtain ⟨flaw, hflaw⟩ := exists_flaw_of_count? hcount
    simp [hflaw]
  | none =>
    simp only [ofDuration, WrittenDuration.value]
    cases WrittenDuration.ofText s <;> simp

theorem zero_le_of_ofDuration (h : ofDuration d = .ok policy) :
    ∀ ms ∈ policy.durations, 0 ≤ ms := by
  unfold ofDuration at h
  split at h
  · rename_i ms hms
    obtain rfl := Except.ok.inj h
    simpa [RepeatPolicy.durations] using WrittenDuration.zero_le_of_value hms
  · cases h

theorem zero_le_of_ofCount {d : Option WrittenDuration} (h : ofCount max d = .ok policy) :
    ∀ ms ∈ policy.durations, 0 ≤ ms := by
  unfold ofCount at h
  split at h
  · obtain rfl := Except.ok.inj h
    simp [RepeatPolicy.durations]
  · split at h
    · rename_i ms hms
      obtain rfl := Except.ok.inj h
      simpa [RepeatPolicy.durations] using WrittenDuration.zero_le_of_value hms
    · cases h

/-- No duration of a policy is negative, however the policy is written. -/
theorem zero_le_of_value (h : w.value = .ok policy) : ∀ ms ∈ policy.durations, 0 ≤ ms := by
  unfold value at h
  split at h
  · exact zero_le_of_ofDuration h
  · split at h
    · obtain rfl := Except.ok.inj h
      simp [RepeatPolicy.durations]
    · exact zero_le_of_ofDuration h
  · exact zero_le_of_ofDuration h
  · exact zero_le_of_ofCount h
  · cases h

/-- Counts and durations are told apart. No text is both; a text is read as a count exactly where a
32-bit number has one of the marks of a count, and as a duration exactly where it is one; a number
that has a mark is never a duration, even where it is too large for a count; and no duration that is
accepted is negative. -/
theorem value_unambiguous :
    (∀ s, count? s = none ∨ ∃ flaw, WrittenDuration.ofText s = .error flaw) ∧
    (∀ s max period, (text s).value = .ok (.count max period) ↔
      period = none ∧ ∃ numeral, CountText numeral s.toList ∧ Denotes numeral max.toNat) ∧
    (∀ s ms, (text s).value = .ok (.duration ms) ↔ WrittenDuration.ofText s = .ok ms) ∧
    (∀ s numeral, CountText numeral s.toList → ∀ ms, (text s).value ≠ .ok (.duration ms)) ∧
    (∀ s ms, WrittenDuration.ofText s = .ok ms → 0 ≤ ms) ∧
    ∀ w policy, value w = .ok policy → ∀ ms ∈ policy.durations, 0 ≤ ms := by
  refine ⟨fun s => ?_, fun s max period => value_text_eq_count_iff,
    fun s ms => value_text_eq_duration_iff, fun s numeral htext ms hvalue => ?_,
    fun s ms => WrittenDuration.zero_le_of_ofText, fun w policy => zero_le_of_value⟩
  · cases hcount : count? s with
    | none => exact Or.inl rfl
    | some max => exact Or.inr (exists_flaw_of_count? hcount)
  · obtain ⟨flaw, hflaw⟩ := WrittenDuration.exists_flaw_of_countText htext
    rw [value_text_eq_duration_iff, hflaw] at hvalue
    cases hvalue

/-- Three times is a count, a number that is too large for a count is no duration, and the period of
a policy that writes a second is not negative. -/
theorem value_unambiguous_written :
    (text " 3 Times").value = .ok (.count 3 none) ∧
    (∀ ms, (text "4294967296x").value ≠ .ok (.duration ms)) ∧
    (parts none (some 2) (some (.text "1 s"))).value = .ok (.count 2 (some 1000)) ∧
    ∀ ms ∈ RepeatPolicy.durations (.count 2 (some 1000)), 0 ≤ ms := by
  obtain ⟨-, hcount, -, hmarked, -, hpolicy⟩ := value_unambiguous
  have hperiod : (parts none (some 2) (some (.text "1 s"))).value = .ok (.count 2 (some 1000)) := by
    decide +kernel
  have hthree : CountText ['3'] ([' '] ++ (['3'] ++ [' '] ++ "Times".toList) ++ []) :=
    CountText.behind (by decide) (by decide) nofun (by decide)
  have hlarge : CountText "4294967296".toList ([] ++ ("4294967296".toList ++ [] ++ ['x']) ++ []) :=
    CountText.behind nofun nofun nofun (by decide)
  exact ⟨(hcount _ _ _).mpr ⟨rfl, ['3'], hthree, ['3'], Or.inl rfl, rfl, rfl⟩,
    hmarked _ _ hlarge, hperiod, hpolicy _ _ hperiod⟩

end WrittenRepetition

end TelemetryBands
