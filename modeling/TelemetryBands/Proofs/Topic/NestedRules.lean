import TelemetryBands.Proofs.Topic.RuleLayouts

/-!
# Nested rules and the members beside them

A rule that has `computingRules` is read as nested if its parts are in order. If they are not, the
rule is not refused for that: it is read as a flat rule, in which both parts mean nothing, and it is
what the members beside them write.
-/

namespace TelemetryBands

open Json (Record)

namespace RuleDraft

/-- An object has a member with a name and a value. -/
def Holds (members : List (Quoted × Json)) (name : String) (value : Json) : Prop :=
  ∃ member ∈ members, member.1.text? = some name ∧ member.2 = value

/-- The parts of a nested rule are in order: no part is there twice, `computingRules` is a flat rule
that can be read, and `pubRules` is `null` or can be read, if it is there at all. -/
structure InOrder (members : List (Quoted × Json)) : Prop where
  readable : Record.Readable parts members
  computing : ∀ member ∈ members, member.1.text? = some "computingRules" →
    (flat? member.2).isSome
  publication : ∀ member ∈ members, member.1.text? = some "pubRules" →
    member.2.isNull ∨ (publication? member.2).isSome

variable {members : List (Quoted × Json)} {value : Json}

/-- A part of a nested rule is found under its name. -/
theorem get?_part {name : String} (hreadable : Record.Readable parts members)
    (hname : name ∈ ["computingRules", "pubRules"]) :
    (⟨Record.entries parts members⟩ : Record).get? name = some value ↔
      Holds members name value := by
  simp only [Record.get?_eq_some_iff hreadable.2, Record.mem_entries, meaning?_parts hname, Holds]

/-- Parts in order are read as what `computingRules` writes, up to the repeat policy. -/
theorem InOrder.nested?_eq (h : InOrder members) (hvalue : Holds members "computingRules" value) :
    ∃ d repeats, flat? value = some d ∧ nested? (.object members) = some { d with repeats } := by
  have hget := (get?_part h.readable (by decide)).mpr hvalue
  obtain ⟨member, hmember, htext, rfl⟩ := hvalue
  obtain ⟨d, hd⟩ := Option.isSome_iff_exists.mp (h.computing member hmember htext)
  have hpublication : ∃ publication,
      (⟨Record.entries parts members⟩ : Record).optional? "pubRules" publication? =
        some publication := by
    rw [← Option.isSome_iff_exists, Record.isSome_optional?_iff]
    intro j hj
    obtain ⟨member, hmember, htext, rfl⟩ := (get?_part h.readable (by decide)).mp hj
    exact h.publication member hmember htext
  obtain ⟨publication, hpublication⟩ := hpublication
  refine ⟨d, publication.join <|> d.repeats, hd, ?_⟩
  rw [nested?_object, if_pos h.readable, ofParts?, Record.required?_eq hget, hd, hpublication]
  rfl

/-- A rule is read as nested only if its parts are in order. -/
theorem inOrder_of_nested? {d : RuleDraft} (h : nested? (.object members) = some d) :
    InOrder members := by
  rw [nested?_object, ofParts?] at h
  obtain ⟨hreadable, h⟩ := Option.ite_none_right_eq_some.mp h
  obtain ⟨d, hd, h⟩ := Option.bind_eq_some_iff.mp h
  obtain ⟨publication, hpublication, -⟩ := Option.map_eq_some_iff.mp h
  refine ⟨hreadable, fun member hmember htext => ?_, fun member hmember htext => ?_⟩
  · have hget := (get?_part hreadable (by decide)).mpr ⟨member, hmember, htext, rfl⟩
    rw [Record.required?_eq hget] at hd
    rw [hd]
    rfl
  · have hsome := Option.isSome_iff_exists.mpr ⟨publication, hpublication⟩
    exact Record.isSome_optional?_iff.mp hsome member.2
      ((get?_part hreadable (by decide)).mpr ⟨member, hmember, htext, rfl⟩)

/-- The repeat policy of a draft has no part in what it writes about states, bands and windows. -/
theorem Governs.of_repeats {d : RuleDraft} {repeats : Option WrittenRepetition} {index : Nat}
    {r : Rule} (h : Governs { d with repeats } index r) : d.Governs index r :=
  ⟨h.state, h.lower, h.upper, h.exclusion, h.windowSize, h.windowOffset, h.aggregation⟩

/-- The draft of an object with `computingRules` is that of `computingRules`, up to the repeat
policy, if the parts are in order, and else that of the object as a flat rule. -/
theorem exists_of_ofJson? {d : RuleDraft} (hvalue : Holds members "computingRules" value)
    (h : ofJson? (.object members) = some d) :
    (InOrder members → ∃ written repeats, flat? value = some written ∧
      d = { written with repeats }) ∧
      (¬ InOrder members → flat? (.object members) = some d) := by
  rw [ofJson?] at h
  split at h
  · constructor
    · intro horder
      obtain ⟨written, repeats, hwritten, hnested⟩ := horder.nested?_eq hvalue
      rw [hnested] at h
      exact ⟨written, repeats, hwritten, (Option.some.inj h).symm⟩
    · intro hnot
      have hnone : nested? (.object members) = none := by
        rw [Option.eq_none_iff_forall_ne_some]
        exact fun other hother => hnot (inOrder_of_nested? hother)
      rw [hnone] at h
      exact h
  · cases h

end RuleDraft

namespace TopicDraft

/-- The rules that a topic document writes. -/
def written (doc : Json) : List Json :=
  match (Record.read? fields doc).bind (·.get? "rules") with
  | some (.array items) => items
  | _ => []

/-- The drafts of a topic stand in the places of its written rules. -/
theorem exists_draft_of_written {doc : Json} {d : TopicDraft} (h : ofJson? doc = some d) {i : Nat}
    {item : Json} (hitem : (written doc)[i]? = some item) :
    ∃ draft, d.rules[i]? = some draft ∧ RuleDraft.ofJson? item = some draft := by
  rw [ofJson?_eq] at h
  obtain ⟨r, hread, hdraft⟩ := Option.bind_eq_some_iff.mp h
  have hrules := rules_of_ofRecord? hdraft
  rw [written, hread, Option.bind_some] at hitem
  split at hitem
  · rename_i items hget
    rw [Record.defaulted?, hget] at hrules
    exact getElem?_of_mapM hrules hitem
  · cases hitem

end TopicDraft

namespace TopicSpec

/-- A nested rule is followed if its parts are in order. In an accepted document, the rule of an
object with `computingRules` has the state, the bounds, the exclusion, the window and the
aggregation that `computingRules` writes, or what stands for them, if the parts of the object are in
order; and if they are not, it has those of the members beside `computingRules`. -/
theorem nested_rules_are_followed_if_in_order {text : String} {doc : Json} {spec : TopicSpec}
    (htext : Json.parse? text = some doc) (hspec : parse text = .ok spec) {i : Nat}
    {members : List (Quoted × Json)} {value : Json}
    (hitem : (TopicDraft.written doc)[i]? = some (.object members))
    (hvalue : RuleDraft.Holds members "computingRules" value) :
    ∃ r, spec.ladder.rules[i]? = some r ∧
      (RuleDraft.InOrder members →
        ∃ d, RuleDraft.flat? value = some d ∧ d.Governs i r) ∧
      (¬ RuleDraft.InOrder members →
        ∃ d, RuleDraft.flat? (.object members) = some d ∧ d.Governs i r) := by
  rw [parse_eq_ofJson htext] at hspec
  obtain ⟨d, hd, hmeans⟩ := exists_draft_of_ofJson hspec
  obtain ⟨draft, hdraft, hread⟩ := TopicDraft.exists_draft_of_written hd hitem
  obtain ⟨r, hr, hgoverns⟩ := exists_governs hmeans hdraft
  obtain ⟨hin, hout⟩ := RuleDraft.exists_of_ofJson? hvalue hread
  refine ⟨r, hr, fun horder => ?_, fun hnot => ⟨draft, hout hnot, hgoverns⟩⟩
  obtain ⟨written, repeats, hwritten, rfl⟩ := hin horder
  exact ⟨written, hwritten, hgoverns.of_repeats⟩

/-- A rule for values from 10, with `pubRules` that cannot be read, and another state and bound
beside its parts. -/
def overlooked : List (String × Json) :=
  [("computingRules", .record [("state", .ofInt 1), ("lowerBound", .ofInt 10)]),
    ("pubRules", .ofText "5s"), ("state", .ofInt 7), ("lowerBound", .ofInt 0)]

/-- A rule for values below 0, with another bound beside its part. -/
def followed : List (String × Json) :=
  [("computingRules", .record [("upperBound", .ofInt 0)]), ("upperBound", .ofInt 99)]

theorem legible_overlooked : (Json.record overlooked).Legible := by
  have hwritten : (Json.record [("state", .ofInt 1), ("lowerBound", .ofInt 10)]).Legible :=
    Json.legible_record (by simp [Json.legible_ofInt])
  exact Json.legible_record (by
    simp [overlooked, hwritten, Json.legible_ofInt, Json.legible_ofText])

theorem legible_followed : (Json.record followed).Legible := by
  have hwritten : (Json.record [("upperBound", .ofInt 0)]).Legible :=
    Json.legible_record (by simp [Json.legible_ofInt])
  exact Json.legible_record (by simp [followed, hwritten, Json.legible_ofInt])

/-- The rule is accepted with the state and the bound beside its parts, and not with those of its
`computingRules`. -/
theorem nested_rule_is_overlooked :
    let text := (documentOf [.record overlooked]).compact
    let rule : Rule := ⟨7, some 0.0, none, .both, 1000, 1000, .last, none⟩
    Json.parse? text = some (documentOf [.record overlooked]) ∧
      (parse text).toOption.map (fun spec => spec.ladder.rules) = some [rule] ∧
      ¬ ∃ d, RuleDraft.flat? (.record [("state", .ofInt 1), ("lowerBound", .ofInt 10)]) = some d ∧
        d.Governs 0 rule := by
  intro text rule
  have htext : Json.parse? text = some (documentOf [.record overlooked]) :=
    parse?_documentOf (List.forall_mem_singleton.mpr legible_overlooked)
  refine ⟨htext, ?_, ?_⟩
  · rw [parse_eq_ofJson htext]
    decide +kernel
  · rintro ⟨d, hd, hgoverns⟩
    have hread : RuleDraft.flat? (.record [("state", .ofInt 1), ("lowerBound", .ofInt 10)]) =
        some ⟨some 1, some 10.0, none, none, none, none, none, none⟩ := by decide +kernel
    obtain rfl := Option.some.inj (hread.symm.trans hd)
    exact absurd hgoverns.state (by decide)

/-- Of two rules with `computingRules` the first is what these write, and the second is what the
members beside them write. -/
theorem nested_rules_are_followed_if_in_order_beside :
    let doc := documentOf [.record followed, .record overlooked]
    ∃ (spec : TopicSpec) (r r' : Rule), parse doc.compact = .ok spec ∧
      spec.ladder.rules[0]? = some r ∧ r.upper = some 0.0 ∧
      spec.ladder.rules[1]? = some r' ∧ r'.state = 7 ∧ r'.lower = some 0.0 := by
  intro doc
  have htext : Json.parse? doc.compact = some doc := parse?_documentOf
    (List.forall_mem_cons.mpr ⟨legible_followed, List.forall_mem_singleton.mpr legible_overlooked⟩)
  obtain ⟨spec, hspec⟩ : ∃ spec, parse doc.compact = .ok spec := by
    have hok : (ofJson doc).isOk = true := by decide +kernel
    rw [parse_eq_ofJson htext]
    cases hresult : ofJson doc with
    | error flaw =>
      rw [hresult] at hok
      cases hok
    | ok spec => exact ⟨spec, rfl⟩
  have horder : RuleDraft.InOrder (followed.map fun member => (.ofText member.1, member.2)) :=
    ⟨by decide +kernel, by decide +kernel, by decide +kernel⟩
  have hunreadable : ¬ RuleDraft.InOrder
      (overlooked.map fun member => (.ofText member.1, member.2)) :=
    fun h => absurd h.publication (by decide +kernel)
  have hfirst : (TopicDraft.written doc)[0]? = some (.record followed) := by rfl
  have hsecond : (TopicDraft.written doc)[1]? = some (.record overlooked) := by rfl
  obtain ⟨r, hr, hin, -⟩ := nested_rules_are_followed_if_in_order htext hspec hfirst
    ⟨_, List.mem_cons_self, Quoted.text?_ofText _, rfl⟩
  obtain ⟨r', hr', -, hout⟩ := nested_rules_are_followed_if_in_order htext hspec hsecond
    ⟨_, List.mem_cons_self, Quoted.text?_ofText _, rfl⟩
  obtain ⟨d, hd, hgoverns⟩ := hin horder
  obtain ⟨d', hd', hgoverns'⟩ := hout hunreadable
  have hread : RuleDraft.flat? (.record [("upperBound", .ofInt 0)]) =
      some ⟨none, none, some 0.0, none, none, none, none, none⟩ := by decide +kernel
  have hread' : RuleDraft.flat? (.record overlooked) =
      some ⟨some 7, some 0.0, none, none, none, none, none, none⟩ := by decide +kernel
  obtain rfl := Option.some.inj (hread.symm.trans hd)
  obtain rfl := Option.some.inj (hread'.symm.trans hd')
  exact ⟨spec, r, r', hspec, hr, hgoverns.upper, hr', hgoverns'.state, hgoverns'.lower⟩

end TopicSpec

end TelemetryBands
