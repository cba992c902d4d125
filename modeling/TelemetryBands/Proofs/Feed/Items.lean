import TelemetryBands.Proofs.Feed.Lines

/-!
# What the lines of a feed say

Each line of a feed is read alone. What it says depends on its bytes, and on its number only where
the message of a failure names it; a blank line says nothing. The items of a feed are what its lines
say, in their order, under the numbers that count the lines that are texts.
-/

namespace TelemetryBands.Feed

variable {bytes line : List UInt8} {lines : List (List UInt8)} {number n : Nat}

/-- What is read of a line with a number; of a blank line nothing is. -/
def said (number : Nat) (line : List UInt8) : Option (Except Failure FeedItem) :=
  match textOf? line with
  | none => some (.error notText)
  | some text =>
    let cs := Text.trim text.toList
    if cs.isEmpty then none else some (FeedItem.ofText number cs)

/-- Whether a line is a text, so that it is counted. -/
def isText (line : List UInt8) : Bool :=
  (textOf? line).isSome

/-- The number of lines counted after one more line. -/
def counting (n : Nat) (line : List UInt8) : Nat :=
  n + if isText line then 1 else 0

/-- Nothing is read exactly of a text of white space. -/
theorem said_eq_none_iff :
    said number line = none ↔ ∃ text, textOf? line = some text ∧ Text.AllBlank text.toList := by
  unfold said
  cases hline : textOf? line with
  | none => exact iff_of_false nofun fun ⟨_, h, _⟩ => nomatch h
  | some text =>
    simp only [ite_eq_left_iff, reduceCtorEq, imp_false, not_not, List.isEmpty_iff,
      Text.trim_eq_nil_iff, Option.some.injEq, exists_eq_left']

/-! ### The failures of lines -/

theorem head?_unreadable (number : Nat) :
    (FeedItem.unreadable number).detail.toList.head? = some 'l' := by
  unfold FeedItem.unreadable
  simp only [String.toList_append, List.head?_append]
  rfl

theorem head?_notAnInstant (s : String) :
    (WrittenTime.notAnInstant s).detail.toList.head? = some 'I' := by
  unfold WrittenTime.notAnInstant
  simp only [String.toList_append, List.head?_append]
  rfl

/-- Failures whose texts begin with different characters are different. -/
theorem ne_of_head? {failure failure' : Failure} {c d : Char}
    (h : failure.detail.toList.head? = some c) (h' : failure'.detail.toList.head? = some d)
    (hne : c ≠ d) : failure ≠ failure' := by
  rintro rfl
  exact hne (Option.some.inj (h.symm.trans h'))

/-- A document that says something fails only for its time. -/
theorem exists_of_ofDraft_eq {draft : FeedItem.Draft} {failure : Failure}
    (h : FeedItem.ofDraft draft = .error failure) : ∃ s, failure = WrittenTime.notAnInstant s := by
  have hvalue : ∀ (time : WrittenTime) (f : Millis → FeedItem),
      time.value.map f = .error failure → ∃ s, failure = WrittenTime.notAnInstant s := by
    intro time f h
    unfold WrittenTime.value at h
    split at h
    · cases h
    · split at h
      · cases h
      · exact ⟨_, (Except.error.inj h).symm⟩
  cases draft with
  | sample device point time value => exact hvalue time _ h
  | watermark device point time => exact hvalue time _ h

/-- What the text of a line says fails under its number, or for its time, which has none. -/
theorem ofText_cases (cs : List Char) :
    (∀ number, FeedItem.ofText number cs = .error (FeedItem.unreadable number)) ∨
      ∃ result, (∀ number, FeedItem.ofText number cs = result) ∧
        ∀ failure, result = .error failure → ∃ s, failure = WrittenTime.notAnInstant s := by
  unfold FeedItem.ofText
  split
  · exact Or.inr ⟨_, fun _ => rfl, fun _ => exists_of_ofDraft_eq⟩
  · exact Or.inl fun _ => rfl

/-- A line says the same under each number, unless it is a text that says nothing: then its failure
names the number, and no other failure does. -/
theorem said_cases (line : List UInt8) :
    (∀ number, said number line = some (.error (FeedItem.unreadable number))) ∨
      ∃ result, (∀ number, said number line = result) ∧
        ∀ number, result ≠ some (.error (FeedItem.unreadable number)) := by
  unfold said
  cases textOf? line with
  | none =>
    refine Or.inr ⟨_, fun _ => rfl, fun number h => ?_⟩
    exact ne_of_head? (c := 'r') rfl (head?_unreadable number) (by decide)
      (Except.error.inj (Option.some.inj h))
  | some text =>
    dsimp only
    split
    · exact Or.inr ⟨none, fun _ => rfl, nofun⟩
    · rcases ofText_cases (Text.trim text.toList) with hnumber | ⟨result, hresult, htime⟩
      · exact Or.inl fun number => congrArg some (hnumber number)
      · refine Or.inr ⟨some result, fun number => congrArg some (hresult number),
          fun number h => ?_⟩
        obtain ⟨s, hs⟩ := htime _ (Option.some.inj h)
        exact ne_of_head? (head?_unreadable number) (head?_notAnInstant s) (by decide) hs

/-- A line fails as no text exactly if it is none. -/
theorem said_eq_notText_iff : said number line = some (.error notText) ↔ textOf? line = none := by
  unfold said
  cases textOf? line with
  | none => exact iff_of_true rfl rfl
  | some text =>
    refine iff_of_false (fun h => ?_) nofun
    obtain ⟨-, h⟩ := Option.ite_none_left_eq_some.mp h
    rcases ofText_cases (Text.trim text.toList) with hnumber | ⟨result, hresult, htime⟩
    · rw [hnumber, Option.some.injEq, Except.error.injEq] at h
      exact ne_of_head? (d := 'r') (head?_unreadable number) rfl (by decide) h
    · rw [hresult, Option.some.injEq] at h
      obtain ⟨s, hs⟩ := htime _ h
      exact ne_of_head? (c := 'r') rfl (head?_notAnInstant s) (by decide) hs

/-! ### The items of lines -/

/-- The end of a line is white space, so nothing is read of it. -/
theorem said_append_lineEnd (number : Nat) (line : List UInt8) :
    said number (line ++ [lineEnd]) = said number line := by
  have hend : Text.AllBlank "\n".toList := by decide
  unfold said
  rw [textOf?_append_lineEnd]
  cases textOf? line with
  | none => rfl
  | some text =>
    simp only [Option.map_some, String.toList_append, Text.trim_append_right hend]

theorem counting_append_lineEnd (n : Nat) (line : List UInt8) :
    counting n (line ++ [lineEnd]) = counting n line := by
  unfold counting isText
  rw [textOf?_append_lineEnd, Option.isSome_map]

/-- The first line is read before the others. -/
theorem ofLines_cons (n : Nat) (line : List UInt8) (lines : List (List UInt8)) :
    ofLines n (line :: lines) =
      ⟨((said (n + 1) line).map (⟨counting n line, ·⟩)).toList ++
        (ofLines (counting n line) lines).entries, (ofLines (counting n line) lines).lines⟩ := by
  rw [ofLines]
  unfold said counting isText
  cases textOf? line with
  | none => rfl
  | some text =>
    dsimp only
    split <;> rfl

theorem counting_add_countP (n : Nat) (line : List UInt8) (lines : List (List UInt8)) :
    counting n line + lines.countP isText = n + (line :: lines).countP isText := by
  unfold counting
  rw [List.countP_cons]
  omega

/-- The items of lines that stand behind `n` others are what the lines say, each under its
number. -/
theorem items_ofLines (n : Nat) (lines : List (List UInt8)) :
    (ofLines n lines).items =
      (lines.mapIdx fun i line =>
        said (n + (lines.take i).countP isText + 1) line).filterMap id := by
  induction lines generalizing n with
  | nil => rfl
  | cons line lines ih =>
    -- behind the first line the numbers count this line if it is a text
    have hrest : (ofLines (counting n line) lines).items = (lines.mapIdx fun i rest =>
        said (n + ((line :: lines).take (i + 1)).countP isText + 1) rest).filterMap id := by
      simp only [ih, List.take_succ_cons, counting_add_countP]
    rw [ofLines_cons, items, List.map_append, ← items, hrest, List.mapIdx_cons, List.take_zero,
      List.countP_nil, Nat.add_zero]
    cases said (n + 1) line <;> rfl

/-- The lines that are texts are counted. -/
theorem lines_ofLines (n : Nat) (lines : List (List UInt8)) :
    (ofLines n lines).lines = n + lines.countP isText := by
  induction lines generalizing n with
  | nil => rfl
  | cons line lines ih => rw [ofLines_cons, ih, counting_add_countP]

/-- Lines that are all texts are counted one by one. -/
theorem countP_take_isText (h : ∀ line ∈ lines, isText line) {i : Nat} (hi : i ≤ lines.length) :
    (lines.take i).countP isText = i := by
  have hall : ∀ line ∈ lines.take i, isText line := fun line hline =>
    h line (List.mem_of_mem_take hline)
  rw [List.countP_eq_length.mpr hall, List.length_take_of_le hi]

/-- The lines of a text are texts. -/
theorem isText_of_mem_splitLines (h : isText bytes) (hline : line ∈ splitLines bytes) :
    isText line := by
  obtain ⟨text, htext⟩ := Option.isSome_iff_exists.mp h
  rw [textOf?_eq_some_iff.mp htext] at hline
  obtain ⟨cs, rfl⟩ := exists_of_mem_splitLines hline
  rw [isText, textOf?_bytesOf]
  rfl

end TelemetryBands.Feed
