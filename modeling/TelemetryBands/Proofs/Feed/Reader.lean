import TelemetryBands.Proofs.Feed.Documents

/-!
# A feed read call by call

A reader stands somewhere in the bytes of a feed and counts the lines that are texts. A call reads
lines up to the first that is not blank and says what it makes of this one, or that the feed is at
its end. A line that cannot be read is left behind like any other, so calls go on after a failure,
and together they give what the feed as a whole gives: one result for each line that is not blank.
-/

namespace TelemetryBands.Feed

variable {bytes line read rest : List UInt8} {lines : List (List UInt8)} {n : Nat}

theorem takeLine_append_lineEnd (hline : lineEnd ∉ line) (bytes : List UInt8) :
    takeLine (line ++ lineEnd :: bytes) = (line ++ [lineEnd], bytes) := by
  induction line with
  | nil => rw [List.nil_append, takeLine, if_pos rfl]; rfl
  | cons b line ih =>
    rw [List.mem_cons, not_or] at hline
    rw [List.cons_append, takeLine, if_neg (Ne.symm hline.1), ih hline.2]
    rfl

theorem takeLine_of_notMem (hline : lineEnd ∉ line) : takeLine line = (line, []) := by
  induction line with
  | nil => rfl
  | cons b line ih =>
    rw [List.mem_cons, not_or] at hline
    rw [takeLine, if_neg (Ne.symm hline.1), ih hline.2]

/-- The calls of a reader up to the one that gives nothing: what each gives, with the number of
lines counted by then, and where the last leaves the reader. -/
inductive Reads : Reader → List FeedEntry → Reader → Prop where
  | done {r final : Reader} (h : r.next = (final, none)) : Reads r [] final
  | call {r next final : Reader} {item : Except Failure FeedItem} {entries : List FeedEntry}
      (h : r.next = (next, some item)) (hrest : Reads next entries final) :
    Reads r (⟨next.counted, item⟩ :: entries) final

theorem Reads.unique {r final final' : Reader} {entries entries' : List FeedEntry}
    (h : Reads r entries final) (h' : Reads r entries' final') :
    entries = entries' ∧ final = final' := by
  induction h generalizing entries' final' with
  | done hnext =>
    cases h' with
    | done hnext' =>
      rw [hnext] at hnext'
      exact ⟨rfl, (Prod.mk.inj hnext').1⟩
    | call hnext' =>
      rw [hnext] at hnext'
      cases (Prod.mk.inj hnext').2
  | call hnext _ ih =>
    cases h' with
    | done hnext' =>
      rw [hnext] at hnext'
      cases (Prod.mk.inj hnext').2
    | call hnext' hrest' =>
      rw [hnext] at hnext'
      obtain ⟨rfl, hitem⟩ := Prod.mk.inj hnext'
      obtain ⟨rfl, hfinal⟩ := ih hrest'
      exact ⟨by rw [Option.some.inj hitem], hfinal⟩

/-- A reader whose next call is that of another reads what the other reads. -/
theorem Reads.of_next_eq {r r' final : Reader} {entries : List FeedEntry}
    (h : Reads r' entries final) (hnext : r.next = r'.next) : Reads r entries final := by
  cases h with
  | done h => exact .done (hnext.trans h)
  | call h hrest => exact .call (hnext.trans h) hrest

/-! ## One call -/

/-- At the end of the bytes nothing is left to read. -/
theorem next_nil (n : Nat) : (⟨[], n⟩ : Reader).next = (⟨[], n⟩, none) := by
  rw [Reader.next]
  rfl

/-- A call gives what the next line says, or goes on behind this line if it says nothing. -/
theorem next_eq (htake : takeLine bytes = (read, rest)) (hread : read ≠ []) (n : Nat) :
    (⟨bytes, n⟩ : Reader).next =
      match said (n + 1) read with
      | none => (⟨rest, counting n read⟩ : Reader).next
      | some item => (⟨rest, counting n read⟩, some item) := by
  -- one call is opened; the one behind a line that says nothing stays closed
  rw [Reader.next]
  unfold said counting isText
  simp only [htake, dif_neg hread]
  cases textOf? read with
  | none => rfl
  | some text =>
    dsimp only
    split <;> rfl

/-! ## All calls -/

/-- The first line is read as a reader of lines reads it, if the calls behind it are. -/
theorem Reads.ofLines_cons (htake : takeLine bytes = (read, rest)) (hread : read ≠ [])
    (hline : read = line ++ [lineEnd] ∨ read = line)
    (h : Reads ⟨rest, counting n line⟩ (ofLines (counting n line) lines).entries
      ⟨[], (ofLines (counting n line) lines).lines⟩) :
    Reads ⟨bytes, n⟩ (ofLines n (line :: lines)).entries
      ⟨[], (ofLines n (line :: lines)).lines⟩ := by
  -- the end of the line is read with the line, and changes neither what it says nor the count
  have hsaid : said (n + 1) read = said (n + 1) line := by
    rcases hline with rfl | rfl
    · exact said_append_lineEnd (n + 1) line
    · rfl
  have hcounting : counting n read = counting n line := by
    rcases hline with rfl | rfl
    · exact counting_append_lineEnd n line
    · rfl
  have hnext := next_eq htake hread n
  rw [hsaid, hcounting] at hnext
  rw [Feed.ofLines_cons]
  cases hitem : said (n + 1) line with
  | none =>
    rw [hitem] at hnext
    exact h.of_next_eq hnext
  | some item =>
    rw [hitem] at hnext
    exact .call hnext h

/-- The calls of a reader give what is read of the lines of the bytes, and leave no byte. -/
theorem reads_splitLines (bytes : List UInt8) (n : Nat) :
    Reads ⟨bytes, n⟩ (ofLines n (splitLines bytes)).entries
      ⟨[], (ofLines n (splitLines bytes)).lines⟩ := by
  induction bytes using lines_induction generalizing n with
  | nil => exact .done (next_nil n)
  | last line hne hline =>
    rw [splitLines_of_notMem hline hne]
    exact .ofLines_cons (takeLine_of_notMem hline) hne (Or.inr rfl) (.done (next_nil _))
  | ended line rest hline ih =>
    rw [splitLines_append_lineEnd hline]
    exact .ofLines_cons (takeLine_append_lineEnd hline rest) (by simp) (Or.inl rfl) (ih _)

/-- Calling a reader of a feed until it gives nothing ends, and its calls give what the lines that
the bytes are made of say, line by line: nothing for a blank line, a failure for a line that is no
text, an item for a line with its document, and for every line the same wherever it stands, up to
the number in the failure of a text that says nothing. If the bytes are a text, then this is the
number of the line among all lines, and all lines are counted. -/
theorem reader_reads_line_by_line (hlines : AreLines lines bytes) :
    (∀ entries final, Reads ⟨bytes, 0⟩ entries final ↔
      entries = (ofBytes bytes).entries ∧ final = ⟨[], (ofBytes bytes).lines⟩) ∧
    (ofBytes bytes).items =
      (lines.mapIdx fun i line => said ((lines.take i).countP isText + 1) line).filterMap id ∧
    (∀ line number, said number line = none ↔
      ∃ text, textOf? line = some text ∧ Text.AllBlank text.toList) ∧
    (∀ line number, said number line = some (.error notText) ↔ textOf? line = none) ∧
    (∀ (item : FeedItem) (document : Json), item.WrittenAs document → document.Legible →
      ∀ left right, Text.AllBlank left → Text.AllBlank right → ∀ number,
        said number (bytesOf (left ++ document.compact.toList ++ right)) = some (.ok item)) ∧
    (∀ line, (∀ number, said number line = some (.error (FeedItem.unreadable number))) ∨
      ∃ result, (∀ number, said number line = result) ∧
        ∀ number, result ≠ some (.error (FeedItem.unreadable number))) ∧
    (isText bytes →
      (ofBytes bytes).items = (lines.mapIdx fun i line => said (i + 1) line).filterMap id ∧
      (ofBytes bytes).lines = lines.length) := by
  obtain rfl := areLines_iff.mp hlines
  have hitems := items_ofLines 0 (splitLines bytes)
  have hcounted := lines_ofLines 0 (splitLines bytes)
  simp only [Nat.zero_add] at hitems hcounted
  refine ⟨fun entries final => ⟨fun h => h.unique (reads_splitLines bytes 0), ?_⟩, hitems,
    fun line number => said_eq_none_iff, fun line number => said_eq_notText_iff,
    fun item document h hlegible left right hleft hright =>
      said_of_writtenAs h hlegible hleft hright,
    said_cases, fun htext => ⟨hitems.trans ?_, hcounted.trans ?_⟩⟩
  · rintro ⟨rfl, rfl⟩
    exact reads_splitLines bytes 0
  · refine congrArg (List.filterMap id) (List.mapIdx_eq_mapIdx_iff.mpr fun i hi => ?_)
    rw [countP_take_isText (fun line => isText_of_mem_splitLines htext) (Nat.le_of_lt hi)]
  · exact List.countP_eq_length.mpr fun line => isText_of_mem_splitLines htext

deriving instance DecidableEq for FeedEntry

/-- A watermark for all topics at 5. -/
def watermarkLine : List UInt8 :=
  [0x7B, 0x22, 0x77, 0x61, 0x74, 0x65, 0x72, 0x6D, 0x61, 0x72, 0x6B, 0x22, 0x3A, 0x35, 0x7D]

/-- A blank line, a line that says nothing, a watermark and another line that says nothing, and in
the first feed one between them that is no text. -/
theorem reader_reads_line_by_line_faulty :
    AreLines [[0x20], [0x7B], [0xFF], watermarkLine, [0x5D]]
      ([0x20, 0x0A, 0x7B, 0x0A, 0xFF, 0x0A] ++ watermarkLine ++ [0x0A, 0x5D]) ∧
    Reads ⟨[0x20, 0x0A, 0x7B, 0x0A, 0xFF, 0x0A] ++ watermarkLine ++ [0x0A, 0x5D], 0⟩
      [⟨2, .error (FeedItem.unreadable 2)⟩, ⟨2, .error notText⟩, ⟨3, .ok (.watermark none none 5)⟩,
        ⟨4, .error (FeedItem.unreadable 4)⟩] ⟨[], 4⟩ ∧
    AreLines [[0x20], [0x7B], watermarkLine, [0x5D]]
      ([0x20, 0x0A, 0x7B, 0x0A] ++ watermarkLine ++ [0x0A, 0x5D]) ∧
    isText ([0x20, 0x0A, 0x7B, 0x0A] ++ watermarkLine ++ [0x0A, 0x5D]) ∧
    (ofBytes ([0x20, 0x0A, 0x7B, 0x0A] ++ watermarkLine ++ [0x0A, 0x5D])).items =
      [.error (FeedItem.unreadable 2), .ok (.watermark none none 5),
        .error (FeedItem.unreadable 4)] ∧
    (ofBytes ([0x20, 0x0A, 0x7B, 0x0A] ++ watermarkLine ++ [0x0A, 0x5D])).lines = 4 := by
  have hmixed : AreLines [[0x20], [0x7B], [0xFF], watermarkLine, [0x5D]]
      ([0x20, 0x0A, 0x7B, 0x0A, 0xFF, 0x0A] ++ watermarkLine ++ [0x0A, 0x5D]) :=
    areLines_iff.mpr (by decide)
  have hlines : AreLines [[0x20], [0x7B], watermarkLine, [0x5D]]
      ([0x20, 0x0A, 0x7B, 0x0A] ++ watermarkLine ++ [0x0A, 0x5D]) :=
    areLines_iff.mpr (by decide)
  have htext : isText ([0x20, 0x0A, 0x7B, 0x0A] ++ watermarkLine ++ [0x0A, 0x5D]) := by
    decide +kernel
  obtain ⟨hreads, -⟩ := reader_reads_line_by_line hmixed
  obtain ⟨-, -, -, -, -, -, hnumbers⟩ := reader_reads_line_by_line hlines
  obtain ⟨hitems, hcounted⟩ := hnumbers htext
  exact ⟨hmixed, (hreads _ _).mpr ⟨by decide +kernel, congrArg (Reader.mk []) (by decide)⟩, hlines,
    htext, hitems.trans (by decide +kernel), hcounted⟩

end TelemetryBands.Feed
