import TelemetryBands.Json.Writer
import TelemetryBands.Proofs.Json.Scanning

/-!
# Written documents are read back

A document is *legible* if each of its tokens is. The texts of a legible document, compact or in
lines, are read back as that document: the scanner finds its tokens again, and the builder makes the
tree from them, which is shown by induction on the tree.
-/

namespace TelemetryBands

namespace Json

mutual

/-- The tokens of a document stand with marks between them, and only what follows them may need a
mark. -/
theorem spaced_tokens (j : Json) {rest : List Token} (h : spaced false rest = true) :
    spaced true (j.tokens ++ rest) = true := by
  cases j with
  | null => exact h
  | bool b => exact h
  | number n => exact h
  | string q => exact h
  | array items =>
    show spaced true (itemTokens items ++ [.closeArray] ++ rest) = true
    rw [List.append_assoc]
    exact spaced_itemTokens items (spaced_true h)
  | object members =>
    show spaced true (memberTokens members ++ [.closeObject] ++ rest) = true
    rw [List.append_assoc]
    exact spaced_memberTokens members (spaced_true h)

/-- The tokens of items stand with marks between them. -/
theorem spaced_itemTokens (items : List Json) {rest : List Token} (h : spaced true rest = true) :
    spaced true (itemTokens items ++ .closeArray :: rest) = true := by
  match items with
  | [] => exact h
  | [item] => exact spaced_tokens item h
  | item :: next :: items =>
    show spaced true (item.tokens ++ .comma :: itemTokens (next :: items) ++ _) = true
    rw [List.append_assoc]
    exact spaced_tokens item (spaced_itemTokens (next :: items) h)

/-- The tokens of members stand with marks between them. -/
theorem spaced_memberTokens (members : List (Quoted × Json)) {rest : List Token}
    (h : spaced true rest = true) :
    spaced true (memberTokens members ++ .closeObject :: rest) = true := by
  match members with
  | [] => exact h
  | [(name, value)] => exact spaced_tokens value h
  | (name, value) :: next :: members =>
    show spaced true (value.tokens ++ .comma :: memberTokens (next :: members) ++ _) = true
    rw [List.append_assoc]
    exact spaced_tokens value (spaced_memberTokens (next :: members) h)

end

namespace Builder

/-- The first token of a document does not end an array. -/
theorem exists_first (j : Json) : ∃ t ts, j.tokens = t :: ts ∧ t ≠ .closeArray := by
  cases j with
  | null => exact ⟨_, _, rfl, nofun⟩
  | bool b => exact ⟨_, _, rfl, nofun⟩
  | number n => exact ⟨_, _, rfl, nofun⟩
  | string q => exact ⟨_, _, rfl, nofun⟩
  | array items => exact ⟨_, _, rfl, nofun⟩
  | object members => exact ⟨_, _, rfl, nofun⟩

theorem step_firstItem (frames : List Frame) {t : Token} (h : t ≠ .closeArray) :
    step (.firstItem frames) t = step (.value (.items [] :: frames)) t := by
  cases t with
  | closeArray => exact absurd rfl h
  | openArray => rfl
  | openObject => rfl
  | closeObject => rfl
  | comma => rfl
  | colon => rfl
  | null => rfl
  | bool b => rfl
  | numeral n => rfl
  | quoted q => rfl

/-- In front of the first item an array takes what a value may begin with. -/
theorem foldlM_firstItem (item : Json) (items : List Json) (frames : List Frame)
    (rest : List Token) :
    (itemTokens (item :: items) ++ rest).foldlM step (.firstItem frames) =
      (itemTokens (item :: items) ++ rest).foldlM step (.value (.items [] :: frames)) := by
  obtain ⟨t, ts, hts, ht⟩ := exists_first item
  have hfirst : ∃ us, itemTokens (item :: items) = t :: us := by
    cases items with
    | nil => exact ⟨ts, hts⟩
    | cons next items => exact ⟨_, congrArg (· ++ Token.comma :: itemTokens (next :: items)) hts⟩
  obtain ⟨us, hus⟩ := hfirst
  rw [hus, List.cons_append, List.foldlM_cons, step_firstItem frames ht, ← List.foldlM_cons]

/-- In front of the first name an object takes a name. -/
theorem foldlM_firstName (member : Quoted × Json) (members : List (Quoted × Json))
    (frames : List Frame) (rest : List Token) :
    (memberTokens (member :: members) ++ rest).foldlM step (.firstName frames) =
      (memberTokens (member :: members) ++ rest).foldlM step (.nextName [] frames) := by
  cases members with
  | nil => rfl
  | cons next members => rfl

mutual

/-- The tokens of a document give that document to the innermost container. -/
theorem foldlM_tokens (j : Json) (frames : List Frame) (rest : List Token) :
    (j.tokens ++ rest).foldlM step (.value frames) = rest.foldlM step (give j frames) := by
  cases j with
  | null => rfl
  | bool b => rfl
  | number n => rfl
  | string q => rfl
  | array items =>
    show (itemTokens items ++ [Token.closeArray] ++ rest).foldlM step (.firstItem frames) = _
    rw [List.append_assoc, List.singleton_append]
    match items with
    | [] => rfl
    | item :: items =>
      rw [foldlM_firstItem, foldlM_itemTokens (item :: items) (List.cons_ne_nil _ _) [] frames rest]
      rfl
  | object members =>
    show (memberTokens members ++ [Token.closeObject] ++ rest).foldlM step (.firstName frames) = _
    rw [List.append_assoc, List.singleton_append]
    match members with
    | [] => rfl
    | member :: members =>
      rw [foldlM_firstName,
        foldlM_memberTokens (member :: members) (List.cons_ne_nil _ _) [] frames rest]
      rfl

/-- The tokens of items add them to the innermost array, which then ends. -/
theorem foldlM_itemTokens (items : List Json) (hne : items ≠ []) (done : List Json)
    (frames : List Frame) (rest : List Token) :
    (itemTokens items ++ .closeArray :: rest).foldlM step (.value (.items done :: frames)) =
      rest.foldlM step (give (.array (done.reverse ++ items)) frames) := by
  match items with
  | [] => exact absurd rfl hne
  | [item] =>
    show (item.tokens ++ .closeArray :: rest).foldlM step _ = _
    rw [foldlM_tokens item (.items done :: frames) (.closeArray :: rest), ← List.reverse_cons]
    rfl
  | item :: next :: items =>
    have hnext :=
      foldlM_itemTokens (next :: items) (List.cons_ne_nil _ _) (item :: done) frames rest
    show (item.tokens ++ .comma :: itemTokens (next :: items) ++ .closeArray :: rest).foldlM step _
      = _
    rw [List.append_assoc, foldlM_tokens item (.items done :: frames)]
    rw [List.reverse_cons, List.append_assoc] at hnext
    exact hnext

/-- The tokens of members add them to the innermost object, which then ends. -/
theorem foldlM_memberTokens (members : List (Quoted × Json)) (hne : members ≠ [])
    (done : List (Quoted × Json)) (frames : List Frame) (rest : List Token) :
    (memberTokens members ++ .closeObject :: rest).foldlM step (.nextName done frames) =
      rest.foldlM step (give (.object (done.reverse ++ members)) frames) := by
  match members with
  | [] => exact absurd rfl hne
  | [(name, v)] =>
    show (v.tokens ++ .closeObject :: rest).foldlM step (.value (.members done name :: frames))
      = _
    rw [foldlM_tokens v (.members done name :: frames) (.closeObject :: rest),
      ← List.reverse_cons]
    rfl
  | (name, v) :: next :: members =>
    have hnext :=
      foldlM_memberTokens (next :: members) (List.cons_ne_nil _ _) ((name, v) :: done) frames rest
    show (v.tokens ++ .comma :: memberTokens (next :: members) ++ .closeObject :: rest).foldlM
      step (.value (.members done name :: frames)) = _
    rw [List.append_assoc, foldlM_tokens v (.members done name :: frames)]
    rw [List.reverse_cons, List.append_assoc] at hnext
    exact hnext

end

end Builder

/-- A document is legible if each of its tokens is found again. -/
def Legible (j : Json) : Prop :=
  ∀ t ∈ j.tokens, t.Legible

/-- Pieces with the tokens of a legible document are read back as that document. -/
theorem ofChars?_pieces {j : Json} (h : j.Legible) {ps : List Piece}
    (hps : ps.filterMap Piece.token? = j.tokens) : ofChars? (ps.flatMap Piece.chars) = some j := by
  have hspaced : spaced true j.tokens = true := by
    rw [← List.append_nil j.tokens]
    exact spaced_tokens j rfl
  have hscan : Token.scan? (ps.flatMap Piece.chars) = some j.tokens := by
    rw [← hps] at hspaced ⊢
    exact Token.scan?_pieces hspaced (hps ▸ h)
  have hbuild : j.tokens.foldlM Builder.step (.value []) = some (.complete j) := by
    rw [← List.append_nil j.tokens]
    exact Builder.foldlM_tokens j [] []
  rw [ofChars?, hscan, Option.bind_some, ofTokens?, hbuild]
  rfl

/-- The compact text of a legible document is read back as that document. -/
theorem parse?_compact {j : Json} (h : j.Legible) : parse? j.compact = some j := by
  have hread : ofChars? ((j.tokens.map Piece.token).flatMap Piece.chars) = some j := by
    apply ofChars?_pieces h
    rw [List.filterMap_map]
    exact List.filterMap_some
  rw [List.flatMap_map] at hread
  rw [parse?, compact, String.toList_ofList]
  exact hread

mutual

/-- Written in lines, a document has the same tokens. -/
theorem filterMap_pieces (depth : Nat) (j : Json) :
    (j.pieces depth).filterMap Piece.token? = j.tokens := by
  match j with
  | .null => rfl
  | .bool b => rfl
  | .number n => rfl
  | .string q => rfl
  | .array [] => rfl
  | .array (item :: items) =>
    have hitems := filterMap_itemPieces (depth + 1) (item :: items)
    simp only [pieces, tokens, List.filterMap_append, List.filterMap_cons, hitems, Piece.token?]
    rfl
  | .object [] => rfl
  | .object (member :: members) =>
    have hmembers := filterMap_memberPieces (depth + 1) (member :: members)
    simp only [pieces, tokens, List.filterMap_append, List.filterMap_cons, hmembers, Piece.token?]
    rfl

theorem filterMap_itemPieces (depth : Nat) (items : List Json) :
    (itemPieces depth items).filterMap Piece.token? = itemTokens items := by
  match items with
  | [] => rfl
  | [item] => exact filterMap_pieces depth item
  | item :: next :: items =>
    have hitem := filterMap_pieces depth item
    have hrest := filterMap_itemPieces depth (next :: items)
    simp only [itemPieces, itemTokens, List.filterMap_append, List.filterMap_cons, hitem, hrest,
      Piece.token?]

theorem filterMap_memberPieces (depth : Nat) (members : List (Quoted × Json)) :
    (memberPieces depth members).filterMap Piece.token? = memberTokens members := by
  match members with
  | [] => rfl
  | [(name, value)] =>
    exact congrArg (Token.quoted name :: Token.colon :: ·) (filterMap_pieces depth value)
  | (name, value) :: next :: members =>
    have hvalue := filterMap_pieces depth value
    have hrest := filterMap_memberPieces depth (next :: members)
    simp only [memberPieces, memberTokens, List.filterMap_append, List.filterMap_cons, hvalue,
      hrest, Piece.token?]

end

/-- The text of a legible document in lines is read back as that document. -/
theorem parse?_pretty {j : Json} (h : j.Legible) : parse? j.pretty = some j := by
  rw [parse?, pretty, String.toList_ofList]
  exact ofChars?_pieces h (filterMap_pieces 0 j)

theorem legible_null : Legible .null := by
  intro t ht
  obtain rfl := List.mem_singleton.mp ht
  trivial

theorem legible_ofText (s : String) : (ofText s).Legible := by
  intro t ht
  obtain rfl := List.mem_singleton.mp ht
  exact Quoted.isProper_encode s.toList

theorem legible_ofInt (n : Int) : (ofInt n).Legible := by
  intro t ht
  obtain rfl := List.mem_singleton.mp ht
  exact Decimal.Numeral.readable_ofInt n

theorem legible_ofWord32 (n : UInt32) : (ofWord32 n).Legible :=
  legible_ofInt n.toNat

theorem legible_ofWord64 (n : UInt64) : (ofWord64 n).Legible :=
  legible_ofInt n.toNat

theorem legible_ofOption {α : Type} {f : α → Json} (h : ∀ a, (f a).Legible) (value : Option α) :
    (ofOption f value).Legible := by
  cases value with
  | none => exact legible_null
  | some a => exact h a

/-- The tokens of members with properly written names and legible values are found again. -/
theorem legible_of_mem_memberTokens {members : List (Quoted × Json)}
    (h : ∀ member ∈ members, Quoted.isProper member.1.body = true ∧ member.2.Legible)
    {t : Token} (ht : t ∈ memberTokens members) : t.Legible := by
  induction members with
  | nil => cases ht
  | cons member members ih =>
    obtain ⟨hname, hvalue⟩ := h member List.mem_cons_self
    have hmember : ∀ {u : Token},
        u ∈ Token.quoted member.1 :: Token.colon :: member.2.tokens → u.Legible := by
      intro u hu
      rcases List.mem_cons.mp hu with rfl | hu
      · exact hname
      · rcases List.mem_cons.mp hu with rfl | hu
        · trivial
        · exact hvalue u hu
    cases members with
    | nil => exact hmember ht
    | cons next members =>
      rcases List.mem_append.mp ht with ht | ht
      · exact hmember ht
      · rcases List.mem_cons.mp ht with rfl | ht
        · trivial
        · exact ih (fun other hother => h other (List.mem_cons_of_mem member hother)) ht

/-- A record with legible values is legible. -/
theorem legible_record {members : List (String × Json)} (h : ∀ member ∈ members, member.2.Legible) :
    (record members).Legible := by
  intro t ht
  rcases List.mem_cons.mp ht with rfl | ht
  · trivial
  · rcases List.mem_append.mp ht with ht | ht
    · refine legible_of_mem_memberTokens (fun member hmember => ?_) ht
      obtain ⟨original, horiginal, rfl⟩ := List.mem_map.mp hmember
      exact ⟨Quoted.isProper_encode original.1.toList, h original horiginal⟩
    · obtain rfl := List.mem_singleton.mp ht
      trivial

end Json

namespace Millis

theorem legible_toJson (t : Millis) : t.toJson.Legible :=
  Json.legible_ofInt t.val

theorem toJson_ne_null (t : Millis) : t.toJson ≠ .null :=
  nofun

end Millis

end TelemetryBands
