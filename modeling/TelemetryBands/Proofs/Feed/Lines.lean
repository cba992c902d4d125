import TelemetryBands.Proofs.Text.Encoding
import TelemetryBands.Proofs.Text.Ends

/-!
# Lines of bytes

Bytes are taken apart in one way only: into lines that are ended, and behind them a line that is
not, which counts if it is not empty. The end of a line is a character of its own, so the lines of a
text are texts, and a line is a text with its end if and only if it is one without.
-/

namespace TelemetryBands.Feed

variable {bytes line rest : List UInt8} {lines : List (List UInt8)} {cs : List Char}

/-- The lines that bytes are made of: each line is ended, except that the last one may lack its end
if it is not empty, and no line has an end inside. -/
def AreLines (lines : List (List UInt8)) (bytes : List UInt8) : Prop :=
  ∃ ended last, bytes = ended.flatMap (· ++ [lineEnd]) ++ last ∧
    (∀ line ∈ ended, lineEnd ∉ line) ∧ lineEnd ∉ last ∧
    lines = ended ++ if last = [] then [] else [last]

/-- A line that is ended stands before the lines behind its end. -/
theorem splitLines_append_lineEnd (hline : lineEnd ∉ line) (bytes : List UInt8) :
    splitLines (line ++ lineEnd :: bytes) = line :: splitLines bytes := by
  induction line with
  | nil => rw [List.nil_append, splitLines, if_pos rfl]
  | cons b line ih =>
    rw [List.mem_cons, not_or] at hline
    rw [List.cons_append, splitLines, if_neg (Ne.symm hline.1), ih hline.2]

/-- A line that is not ended is the last. -/
theorem splitLines_of_notMem (hline : lineEnd ∉ line) (hne : line ≠ []) :
    splitLines line = [line] := by
  induction line with
  | nil => exact absurd rfl hne
  | cons b line ih =>
    rw [List.mem_cons, not_or] at hline
    rw [splitLines, if_neg (Ne.symm hline.1)]
    cases line with
    | nil => rfl
    | cons c line => rw [ih hline.2 (List.cons_ne_nil c line)]

/-- Bytes have no end of a line, or a line stands before the first one. -/
theorem exists_line (bytes : List UInt8) :
    lineEnd ∉ bytes ∨ ∃ line rest, lineEnd ∉ line ∧ bytes = line ++ lineEnd :: rest := by
  by_cases hmem : lineEnd ∈ bytes
  · obtain ⟨line, rest, hbytes, hline⟩ := List.eq_append_cons_of_mem hmem
    exact Or.inr ⟨line, rest, hline, hbytes⟩
  · exact Or.inl hmem

/-- An induction over the lines of bytes. -/
theorem lines_induction {motive : List UInt8 → Prop} (nil : motive [])
    (last : ∀ line, line ≠ [] → lineEnd ∉ line → motive line)
    (ended : ∀ line rest, lineEnd ∉ line → motive rest → motive (line ++ lineEnd :: rest))
    (bytes : List UInt8) : motive bytes := by
  induction hlength : bytes.length using Nat.strong_induction_on generalizing bytes with
  | _ n ih =>
    rcases exists_line bytes with hnot | ⟨line, rest, hline, rfl⟩
    · by_cases hne : bytes = []
      · rw [hne]
        exact nil
      · exact last bytes hne hnot
    · refine ended line rest hline (ih rest.length ?_ rest rfl)
      simp only [← hlength, List.length_append, List.length_cons]
      omega

/-- Lines are split off that make up the bytes, and no others do. -/
theorem areLines_iff : AreLines lines bytes ↔ lines = splitLines bytes := by
  constructor
  · rintro ⟨ended, last, rfl, hended, hlast, rfl⟩
    induction ended with
    | nil =>
      rw [List.flatMap_nil, List.nil_append, List.nil_append]
      split
      · rename_i hnil
        rw [hnil]
        rfl
      · rename_i hne
        exact (splitLines_of_notMem hlast hne).symm
    | cons line ended ih =>
      obtain ⟨hline, hended⟩ := List.forall_mem_cons.mp hended
      rw [List.flatMap_cons, List.append_assoc, List.append_assoc, List.singleton_append,
        splitLines_append_lineEnd hline, List.cons_append, ih hended]
  · rintro rfl
    induction bytes using lines_induction with
    | nil => exact ⟨[], [], rfl, List.forall_mem_nil _, List.not_mem_nil, rfl⟩
    | last line hne hline =>
      refine ⟨[], line, rfl, List.forall_mem_nil _, hline, ?_⟩
      rw [splitLines_of_notMem hline hne, if_neg hne, List.nil_append]
    | ended line rest hline ih =>
      obtain ⟨ended, last, hrest, hended, hlast, hlines⟩ := ih
      refine ⟨line :: ended, last, ?_, List.forall_mem_cons.mpr ⟨hline, hended⟩, hlast, ?_⟩
      · rw [List.flatMap_cons, List.append_assoc, List.append_assoc, List.singleton_append, ← hrest]
      · rw [splitLines_append_lineEnd hline, hlines, List.cons_append]

/-! ## Lines that are texts -/

/-- The end of a line behind a text makes a text, and nothing else does. -/
theorem textOf?_append_lineEnd (line : List UInt8) :
    textOf? (line ++ [lineEnd]) = (textOf? line).map fun text => text ++ "\n" := by
  cases hline : textOf? line with
  | some text =>
    rw [textOf?_eq_some_iff] at hline
    rw [Option.map_some, textOf?_eq_some_iff, String.toList_append, bytesOf_append, hline]
    rfl
  | none =>
    rw [Option.map_none, Option.eq_none_iff_forall_ne_some]
    intro text htext
    rw [textOf?_eq_some_iff] at htext
    obtain ⟨before, after, -, hbefore, -⟩ := exists_of_bytesOf_eq (by decide) htext.symm
    rw [hbefore, textOf?_bytesOf] at hline
    cases hline

/-- The lines of a text are texts. -/
theorem exists_of_mem_splitLines (h : line ∈ splitLines (bytesOf cs)) :
    ∃ cs', line = bytesOf cs' := by
  generalize hbytes : bytesOf cs = bytes at h
  induction bytes using lines_induction generalizing cs with
  | nil => cases h
  | last last hne hlast =>
    rw [splitLines_of_notMem hlast hne] at h
    exact ⟨cs, by rw [List.mem_singleton.mp h, hbytes]⟩
  | ended first rest hfirst ih =>
    obtain ⟨before, after, -, hbefore, hafter⟩ := exists_of_bytesOf_eq (by decide) hbytes
    rw [splitLines_append_lineEnd hfirst] at h
    rcases List.mem_cons.mp h with rfl | h
    · exact ⟨before, hbefore⟩
    · exact ih hafter.symm h

end TelemetryBands.Feed
