import TelemetryBands.Json.Reader
import TelemetryBands.Json.Writer
import TelemetryBands.Proofs.Json.Integers
import TelemetryBands.Proofs.Json.Quoting

/-!
# Tokens in a text

The tokens of a row are found again in their text if every one of them would be found alone and
words, numerals and strings never stand side by side. Gaps between them change nothing.
-/

namespace TelemetryBands.Json

/-- Whether a token is a single mark between values. -/
def Token.isMark : Token → Bool
  | .openArray | .closeArray | .openObject | .closeObject | .comma | .colon => true
  | .null | .bool _ | .numeral _ | .quoted _ => false

/-- A token that is found again where it is written. -/
def Token.Legible : Token → Prop
  | .numeral n => n.Readable
  | .quoted q => Quoted.isProper q.body = true
  | .openArray | .closeArray | .openObject | .closeObject | .comma | .colon => True
  | .null | .bool _ => True

/-- Whether every token that is no mark stands behind a mark, or at the beginning where `clear` says
that a mark stands before it. -/
def spaced : (clear : Bool) → List Token → Bool
  | _, [] => true
  | clear, t :: ts => if t.isMark then spaced true ts else clear && spaced false ts

/-- What may follow something may also follow a mark. -/
theorem spaced_true {clear : Bool} {ts : List Token} (h : spaced clear ts = true) :
    spaced true ts = true := by
  cases ts with
  | nil => rfl
  | cons t ts =>
    unfold spaced at h ⊢
    split at h
    · rename_i hmark
      rw [if_pos hmark]
      exact h
    · rename_i hmark
      rw [Bool.and_eq_true] at h
      rw [if_neg hmark, h.2]
      rfl

/-- The token that a piece is, unless it is a gap. -/
def Piece.token? : Piece → Option Token
  | .token t => some t
  | .space | .line _ => none

/-- A fold goes on from what its first step gives. -/
theorem foldlM_cons_of_eq {σ τ : Type} {f : σ → τ → Option σ} {s s' : σ} {t : τ}
    (h : f s t = some s') (ts : List τ) : (t :: ts).foldlM f s = ts.foldlM f s' := by
  rw [List.foldlM_cons, h]
  rfl

/-- A fold goes on from what its first part gives. -/
theorem foldlM_append_of_eq {σ τ : Type} {f : σ → τ → Option σ} {s s' : σ} {first : List τ}
    (h : first.foldlM f s = some s') (second : List τ) :
    (first ++ second).foldlM f s = second.foldlM f s' := by
  rw [List.foldlM_append, h]
  rfl

namespace Scanner

variable {s : Scanner} {done : List Token} {c : Char}

/-- A character that can neither stand in a word nor in a numeral ends the current token. -/
theorem step_of_finish (h : s.finish? = some done) (hword : c.isLower = false)
    (hnumeral : isNumeralChar c = false) : step s c = begin? done c := by
  obtain ⟨finished, mode⟩ := s
  cases mode with
  | between =>
    obtain rfl := Option.some.inj h
    rfl
  | word seen => simp [step, hword, h]
  | numeral seen => simp [step, hnumeral, h]
  | quoted seen => cases h
  | escaped seen => cases h

/-- A gap ends the current token. -/
theorem step_of_isGap (h : s.finish? = some done) (hc : isGap c = true) :
    step s c = some ⟨done, .between⟩ := by
  have hcases : c = ' ' ∨ c = '\n' ∨ c = '\t' ∨ c = '\r' := by
    simpa [isGap, or_assoc] using hc
  have hplain : c.isLower = false ∧ isNumeralChar c = false := by
    rcases hcases with rfl | rfl | rfl | rfl <;> exact ⟨rfl, rfl⟩
  rw [step_of_finish h hplain.1 hplain.2, begin?, if_pos hc]

/-- A mark ends the current token. -/
theorem foldlM_mark (h : s.finish? = some done) {t : Token} (ht : t.isMark = true) :
    t.chars.foldlM step s = some ⟨t :: done, .between⟩ := by
  have hstep : ∀ {c : Char}, c.isLower = false → isNumeralChar c = false →
      [c].foldlM step s = begin? done c := by
    intro c hword hnumeral
    rw [List.foldlM_cons, step_of_finish h hword hnumeral]
    exact bind_pure _
  cases t with
  | openArray => exact hstep rfl rfl
  | closeArray => exact hstep rfl rfl
  | openObject => exact hstep rfl rfl
  | closeObject => exact hstep rfl rfl
  | comma => exact hstep rfl rfl
  | colon => exact hstep rfl rfl
  | null => cases ht
  | bool b => cases ht
  | numeral n => cases ht
  | quoted q => cases ht

/-- A numeral begins with the first character that can start one. -/
theorem step_of_startsNumeral (h : startsNumeral c = true) :
    step ⟨done, .between⟩ c = some ⟨done, .numeral [c]⟩ := by
  have hgap : isGap c = false := by
    rw [Bool.eq_false_iff]
    intro hgap
    simp only [isGap, Bool.or_eq_true, beq_iff_eq] at hgap
    rcases hgap with ((rfl | rfl) | rfl) | rfl
    · cases h
    · cases h
    · cases h
    · cases h
  have hquote : c ≠ '"' := by
    rintro rfl
    cases h
  simp [step, begin?, hgap, hquote, h]

/-- The characters of a numeral are gathered. -/
theorem foldlM_numeral (cs seen : List Char) (h : ∀ c ∈ cs, isNumeralChar c = true) :
    cs.foldlM step ⟨done, .numeral seen⟩ = some ⟨done, .numeral (cs.reverse ++ seen)⟩ := by
  induction cs generalizing seen with
  | nil => rfl
  | cons c cs ih =>
    have hstep : step ⟨done, .numeral seen⟩ c = some ⟨done, .numeral (c :: seen)⟩ :=
      if_pos (h c List.mem_cons_self)
    have hrest := ih (c :: seen) fun d hd => h d (List.mem_cons_of_mem c hd)
    rw [foldlM_cons_of_eq hstep, List.reverse_cons, List.append_assoc]
    exact hrest

theorem step_quoted {seen : List Char} (hquote : c ≠ '"') (hslash : c ≠ '\\') :
    step ⟨done, .quoted seen⟩ c = some ⟨done, .quoted (c :: seen)⟩ := by
  simp [step, hquote, hslash]

theorem step_escape (seen : List Char) :
    step ⟨done, .quoted seen⟩ '\\' = some ⟨done, .escaped ('\\' :: seen)⟩ := rfl

theorem step_escaped (seen : List Char) (c : Char) :
    step ⟨done, .escaped seen⟩ c = some ⟨done, .quoted (c :: seen)⟩ := rfl

theorem isHex_ne (h : Quoted.isHex c = true) : c ≠ '"' ∧ c ≠ '\\' := by
  constructor
  · rintro rfl
    cases h
  · rintro rfl
    cases h

/-- The characters between quotes are gathered. -/
theorem foldlM_quoted (body seen : List Char) (h : Quoted.isProper body = true) :
    body.foldlM step ⟨done, .quoted seen⟩ = some ⟨done, .quoted (body.reverse ++ seen)⟩ := by
  induction body using Quoted.isProper.induct generalizing seen with
  | case1 => rfl
  | case2 a b c d rest ih =>
    simp only [Quoted.isProper, Bool.and_eq_true] at h
    obtain ⟨⟨⟨⟨ha, hb⟩, hc⟩, hd⟩, hrest⟩ := h
    have hopen : ['\\', 'u', a, b, c, d].foldlM step ⟨done, .quoted seen⟩ =
        some ⟨done, .quoted (d :: c :: b :: a :: 'u' :: '\\' :: seen)⟩ := by
      have hstep : ∀ {x : Char}, Quoted.isHex x = true → ∀ seen,
          step ⟨done, .quoted seen⟩ x = some ⟨done, .quoted (x :: seen)⟩ :=
        fun hx seen => step_quoted (isHex_ne hx).1 (isHex_ne hx).2
      simp [step_escape, step_escaped, hstep ha, hstep hb, hstep hc, hstep hd]
    have hsplit : '\\' :: 'u' :: a :: b :: c :: d :: rest =
        ['\\', 'u', a, b, c, d] ++ rest := rfl
    rw [hsplit, foldlM_append_of_eq hopen, List.reverse_append, List.append_assoc]
    exact ih _ hrest
  | case3 c rest hu ih =>
    have hproper : Quoted.isProper ('\\' :: c :: rest) =
        ((Quoted.shortEscapes.lookup c).isSome && Quoted.isProper rest) := by
      rw [Quoted.isProper]
      exact hu
    rw [hproper, Bool.and_eq_true] at h
    have hrest := ih (c :: '\\' :: seen) h.2
    rw [foldlM_cons_of_eq (step_escape seen), foldlM_cons_of_eq (step_escaped _ c), hrest]
    simp
  | case4 c rest hu hslash ih =>
    rw [Quoted.isProper.eq_4 c rest hu hslash] at h
    simp only [Bool.and_eq_true, bne_iff_ne] at h
    obtain ⟨⟨⟨hslash, hquote⟩, -⟩, hproper⟩ := h
    have hrest := ih (c :: seen) hproper
    rw [foldlM_cons_of_eq (step_quoted hquote hslash), hrest]
    simp

/-- A token that is found again ends what comes before it and can be finished itself, where it is a
mark or where nothing else has begun. -/
theorem foldlM_token (h : s.finish? = some done) {t : Token} (ht : t.Legible)
    (hclear : t.isMark = true ∨ s = ⟨done, .between⟩) :
    ∃ s', t.chars.foldlM step s = some s' ∧ s'.finish? = some (t :: done) ∧
      (t.isMark = true → s' = ⟨t :: done, .between⟩) := by
  by_cases hmark : t.isMark = true
  · exact ⟨_, foldlM_mark h hmark, rfl, fun _ => rfl⟩
  · obtain rfl := hclear.resolve_left hmark
    cases t with
    | openArray => exact absurd rfl hmark
    | closeArray => exact absurd rfl hmark
    | openObject => exact absurd rfl hmark
    | closeObject => exact absurd rfl hmark
    | comma => exact absurd rfl hmark
    | colon => exact absurd rfl hmark
    | null => exact ⟨⟨done, .word ['l', 'l', 'u', 'n']⟩, rfl, rfl, nofun⟩
    | bool b =>
      cases b with
      | true => exact ⟨⟨done, .word ['e', 'u', 'r', 't']⟩, rfl, rfl, nofun⟩
      | false => exact ⟨⟨done, .word ['e', 's', 'l', 'a', 'f']⟩, rfl, rfl, nofun⟩
    | numeral n =>
      obtain ⟨⟨c, cs, hchars, hstart, hrest⟩, hread⟩ := ht
      have hread' : Decimal.Numeral.ofChars? (c :: cs) = some n := by rw [← hchars, hread]
      refine ⟨⟨done, .numeral (cs.reverse ++ [c])⟩, ?_, ?_, nofun⟩
      · show n.chars.foldlM step _ = _
        rw [hchars, foldlM_cons_of_eq (step_of_startsNumeral hstart), foldlM_numeral cs [c] hrest]
      · simp [finish?, hread']
    | quoted q =>
      have hproper : Quoted.isProper q.body = true := ht
      have hopen : step ⟨done, .between⟩ '"' = some ⟨done, .quoted []⟩ := rfl
      have hclose : step ⟨done, .quoted (q.body.reverse ++ [])⟩ '"' =
          some ⟨.quoted q :: done, .between⟩ := by
        simp [step, hproper]
      refine ⟨⟨.quoted q :: done, .between⟩, ?_, rfl, nofun⟩
      show ('"' :: q.body ++ ['"']).foldlM step _ = _
      rw [List.cons_append, foldlM_cons_of_eq hopen,
        foldlM_append_of_eq (foldlM_quoted q.body [] hproper), foldlM_cons_of_eq hclose]
      rfl

/-- Gaps end the current token, and more of them change nothing. -/
theorem foldlM_gaps (cs : List Char) (h : s.finish? = some done) (hc : isGap c = true)
    (hcs : ∀ d ∈ cs, isGap d = true) : (c :: cs).foldlM step s = some ⟨done, .between⟩ := by
  induction cs generalizing s c with
  | nil =>
    rw [List.foldlM_cons, step_of_isGap h hc]
    rfl
  | cons d cs ih =>
    rw [foldlM_cons_of_eq (step_of_isGap h hc)]
    exact ih rfl (hcs d List.mem_cons_self) fun e he => hcs e (List.mem_cons_of_mem d he)

/-- A piece without a token ends the current one. -/
theorem foldlM_gap (h : s.finish? = some done) {p : Piece} (hp : p.token? = none) :
    p.chars.foldlM step s = some ⟨done, .between⟩ := by
  cases p with
  | token t => cases hp
  | space => exact foldlM_gaps [] h rfl (fun d hd => absurd hd List.not_mem_nil)
  | line depth =>
    apply foldlM_gaps _ h rfl
    intro d hd
    rw [List.eq_of_mem_replicate hd]
    rfl

/-- Tokens that are found again are found again in a row, as long as marks or gaps stand between
them. -/
theorem foldlM_pieces {clear : Bool} {ps : List Piece} (h : s.finish? = some done)
    (hclear : clear = true → s = ⟨done, .between⟩)
    (hspaced : spaced clear (ps.filterMap Piece.token?) = true)
    (hlegible : ∀ t ∈ ps.filterMap Piece.token?, t.Legible) :
    ∃ s', (ps.flatMap Piece.chars).foldlM step s = some s' ∧
      s'.finish? = some ((ps.filterMap Piece.token?).reverse ++ done) := by
  induction ps generalizing s done clear with
  | nil => exact ⟨s, rfl, h⟩
  | cons p ps ih =>
    cases hp : p.token? with
    | none =>
      rw [List.filterMap_cons_none hp] at hspaced hlegible ⊢
      obtain ⟨last, hlast, hfinal⟩ := ih (s := ⟨done, .between⟩) rfl (fun _ => rfl)
        (spaced_true hspaced) hlegible
      refine ⟨last, ?_, hfinal⟩
      rw [List.flatMap_cons, foldlM_append_of_eq (foldlM_gap h hp), hlast]
    | some t =>
      obtain rfl : p = .token t := by
        cases p with
        | token u => exact congrArg Piece.token (Option.some.inj hp)
        | space => cases hp
        | line depth => cases hp
      rw [List.filterMap_cons_some hp] at hspaced hlegible ⊢
      have hrest : ∀ t ∈ ps.filterMap Piece.token?, t.Legible :=
        fun u hu => hlegible u (List.mem_cons_of_mem t hu)
      have hbegin : (t.isMark = true ∨ s = ⟨done, .between⟩) ∧
          spaced t.isMark (ps.filterMap Piece.token?) = true := by
        unfold spaced at hspaced
        split at hspaced
        · rename_i hmark
          rw [hmark]
          exact ⟨Or.inl rfl, hspaced⟩
        · rename_i hmark
          rw [Bool.and_eq_true] at hspaced
          rw [Bool.eq_false_iff.mpr hmark]
          exact ⟨Or.inr (hclear hspaced.1), hspaced.2⟩
      obtain ⟨middle, hmiddle, hfinish, hmark⟩ :=
        foldlM_token h (hlegible t List.mem_cons_self) hbegin.1
      obtain ⟨last, hlast, hfinal⟩ := ih hfinish hmark hbegin.2 hrest
      refine ⟨last, ?_, ?_⟩
      · have hchars : (Piece.token t).chars = t.chars := rfl
        rw [List.flatMap_cons, hchars, foldlM_append_of_eq hmiddle, hlast]
      · rw [hfinal, List.reverse_cons, List.append_assoc, List.singleton_append]

end Scanner

/-- Tokens that are found again, with marks between them, are the tokens of their text, whatever
gaps stand between them. -/
theorem Token.scan?_pieces {ps : List Piece}
    (hspaced : spaced true (ps.filterMap Piece.token?) = true)
    (hlegible : ∀ t ∈ ps.filterMap Piece.token?, t.Legible) :
    scan? (ps.flatMap Piece.chars) = some (ps.filterMap Piece.token?) := by
  have hstart : Scanner.start.finish? = some [] := rfl
  obtain ⟨s, hs, hfinish⟩ := Scanner.foldlM_pieces hstart (fun _ => rfl) hspaced hlegible
  rw [scan?, hs, Option.bind_some, hfinish, Option.map_some, List.append_nil, List.reverse_reverse]

end TelemetryBands.Json
