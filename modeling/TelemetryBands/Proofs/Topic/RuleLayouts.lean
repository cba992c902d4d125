import TelemetryBands.Proofs.Json.Depths
import TelemetryBands.Proofs.Json.Numerals
import TelemetryBands.Proofs.Topic.WrittenRules

/-!
# Two layouts of one rule

A flat rule may be written in the nested layout instead. If its members can be read, both are read
as the same draft. If one cannot, the flat rule is refused; the nested one is then read as a flat
rule whose only members mean nothing, that is, as a rule without bounds, and no ladder has such a
rule. So the two layouts lead to one description or to none.
-/

namespace TelemetryBands

open Json (Record)

namespace RuleDraft

/-- Members of a flat rule: each of them means a field, and no two the same. -/
structure IsFlat (members : List (Quoted × Json)) : Prop where
  known : ∀ member ∈ members, (Record.meaning? fields member).isSome
  distinct : (members.map (Record.meaning? fields)).Nodup

/-- The nested layout of a flat rule. Its repeat policy goes into `pubRules`, or it stays in
`computingRules` and there are no `pubRules` or empty ones. -/
inductive Nests : List (Quoted × Json) → Json → Prop
  | apart {before after : List (Quoted × Json)} {name : Quoted} {value : Json}
    (hname : Record.meaning? fields (name, value) = some "repeatPub") :
    Nests (before ++ (name, value) :: after)
      (.record [("computingRules", .object (before ++ after)),
        ("pubRules", .record [("repeatPub", value)])])
  | within {members : List (Quoted × Json)} :
    Nests members (.record [("computingRules", .object members)])
  | beside {members : List (Quoted × Json)} :
    Nests members (.record [("computingRules", .object members), ("pubRules", .record [])])

/-- A flat rule, below the limit of depth by one, and a nested layout of it. -/
def Relaid (j j' : Json) : Prop :=
  ∃ members, j = .object members ∧ IsFlat members ∧ j.depth < room ∧ Nests members j'

/-- The draft of a rule that writes nothing. -/
def blank : RuleDraft :=
  ⟨none, none, none, none, none, none, none, none⟩

variable {members : List (Quoted × Json)} {j j' : Json}

/-- The members of a flat rule are those of a record. -/
theorem IsFlat.readable (h : IsFlat members) : Record.Readable fields members := by
  constructor
  · intro member hmember
    have hknown := h.known member hmember
    rw [Record.meaning?] at hknown
    cases htext : member.1.text? with
    | none =>
      rw [htext] at hknown
      cases hknown
    | some name => rfl
  · have hnames : ((Record.entries fields members).map Prod.fst).map some =
        members.map (Record.meaning? fields) := by
      have hknown := h.known
      clear h
      induction members with
      | nil => rfl
      | cons member members ih =>
        obtain ⟨name, hname⟩ := Option.isSome_iff_exists.mp (hknown member List.mem_cons_self)
        rw [Record.entries_cons, List.map_append, List.map_append,
          ih fun other hother => hknown other (List.mem_cons_of_mem member hother)]
        simp [Record.entries, hname]
    exact (hnames ▸ h.distinct).of_map

theorem IsFlat.flat?_eq (h : IsFlat members) :
    flat? (.object members) = ofRecord? ⟨Record.entries fields members⟩ := by
  rw [flat?, Record.read?, Record.ofMembers?_eq, if_pos h.readable, Option.bind_some]

theorem IsFlat.sublist {members' : List (Quoted × Json)} (h : IsFlat members)
    (hsub : members'.Sublist members) : IsFlat members' :=
  ⟨fun member hmember => h.known member (hsub.mem hmember), h.distinct.sublist (hsub.map _)⟩

/-- The draft of a record is that of a record without the repeat policy, with the policy added. -/
theorem ofRecord?_of_apart {r r' : Record}
    (hsame : ∀ name ≠ "repeatPub", r'.get? name = r.get? name)
    (hmissing : r'.get? "repeatPub" = none) :
    ofRecord? r = (ofRecord? r').bind fun d =>
      (r.optional? "repeatPub" WrittenRepetition.ofJson?).map fun repeats =>
        { d with repeats } := by
  have hoptional : ∀ {α : Type} (name : String) (value? : Json → Option α), name ≠ "repeatPub" →
      r'.optional? name value? = r.optional? name value? :=
    fun name value? hname => Record.optional?_congr (hsame name hname)
  have hnone : r'.optional? "repeatPub" WrittenRepetition.ofJson? = some none := by
    rw [Record.optional?, hmissing]
  simp [ofRecord?, hoptional, hnone, Option.bind_assoc]

/-- A record without a repeat policy has a draft without one. -/
theorem repeats_of_missing {r : Record} {d : RuleDraft} (hmissing : r.get? "repeatPub" = none)
    (h : ofRecord? r = some d) : d.repeats = none := by
  have hapart := ofRecord?_of_apart (fun name _ => rfl) hmissing
  rw [Record.optional?, hmissing, h] at hapart
  exact congrArg repeats (Option.some.inj hapart)

/-- A member of a flat rule is found under its field, and nowhere among the other members. -/
theorem IsFlat.get?_member {before after : List (Quoted × Json)} {name : Quoted} {value : Json}
    {field : String} (h : IsFlat (before ++ (name, value) :: after))
    (hname : Record.meaning? fields (name, value) = some field) :
    (⟨Record.entries fields (before ++ (name, value) :: after)⟩ : Record).get? field = some value ∧
      (⟨Record.entries fields (before ++ after)⟩ : Record).get? field = none ∧
      ∀ other ≠ field, (⟨Record.entries fields (before ++ after)⟩ : Record).get? other =
        (⟨Record.entries fields (before ++ (name, value) :: after)⟩ : Record).get? other := by
  have hwith : Record.entries fields (before ++ (name, value) :: after) =
      Record.entries fields before ++ (field, value) :: Record.entries fields after := by
    rw [Record.entries_append, Record.entries_cons]
    simp [Record.entries, hname]
  have hnodup := h.readable.2
  rw [hwith, List.map_append, List.map_cons, List.nodup_middle, List.nodup_cons,
    List.mem_append, not_or] at hnodup
  obtain ⟨⟨hbefore, hafter⟩, -⟩ := hnodup
  rw [hwith, Record.entries_append]
  simp only [Record.get?_append, Record.get?_eq_none hbefore, Record.get?_eq_none hafter]
  refine ⟨?_, rfl, fun other hother => ?_⟩
  · simp [Record.get?]
  · simp [Record.get?, List.lookup_cons, beq_eq_false_iff_ne.mpr hother]

/-- The parts of the nested layout. -/
def parts : List Json.Field :=
  [.plain "computingRules", .plain "pubRules"]

/-- The draft of the parts of a rule. -/
def ofParts? (r : Record) : Option RuleDraft :=
  (r.required? "computingRules" flat?).bind fun draft =>
  (r.optional? "pubRules" publication?).map fun publication =>
    { draft with repeats := publication.join <|> draft.repeats }

theorem nested?_eq (j : Json) : nested? j = (Record.readObject? parts j).bind ofParts? := rfl

theorem nested?_object (members : List (Quoted × Json)) :
    nested? (.object members) =
      if Record.Readable parts members then ofParts? ⟨Record.entries parts members⟩ else none := by
  rw [nested?_eq, Record.readObject?, Record.ofMembers?_eq]
  split <;> rfl

theorem nested?_record {given : List (String × Json)} (names : List String)
    (hnames : given.map Prod.fst = names)
    (hown : ∀ name ∈ names, (parts.find? (·.isCalled name)).map Json.Field.name = some name)
    (hnodup : names.Nodup) : nested? (.record given) = ofParts? ⟨given⟩ := by
  rw [nested?_eq, Record.readObject?_record names hnames hown hnodup, Option.bind_some]

/-- A part of the nested layout is meant by its name. -/
theorem meaning?_parts {member : Quoted × Json} {name : String}
    (hname : name ∈ ["computingRules", "pubRules"]) :
    Record.meaning? parts member = some name ↔ member.1.text? = some name :=
  Record.meaning?_eq_some_iff (by decide) hname

/-- A flat rule is not read as nested. -/
theorem IsFlat.nested?_eq_none (h : IsFlat members) : nested? (.object members) = none := by
  have hmissing : "computingRules" ∉ (Record.entries parts members).map Prod.fst := by
    intro hmem
    obtain ⟨⟨name, value⟩, hentry, rfl⟩ := List.mem_map.mp hmem
    obtain ⟨member, hmember, hmeaning, -⟩ := Record.mem_entries.mp hentry
    have hknown := h.known member hmember
    rw [Record.meaning?, (meaning?_parts (by decide)).mp hmeaning] at hknown
    cases hknown
  rw [nested?_object, ofParts?, Record.required?, Record.get?_eq_none hmissing]
  split <;> rfl

/-- What a nested layout reads is what the flat layout reads. -/
theorem Nests.nested?_eq (h : Nests members j') (hflat : IsFlat members) :
    nested? j' = flat? (.object members) := by
  cases h with
  | within =>
    rw [nested?_record ["computingRules"] rfl (by decide) (by decide)]
    change ((flat? (.object members)).bind fun draft => some _) = _
    cases flat? (.object members) <;> rfl
  | beside =>
    rw [nested?_record ["computingRules", "pubRules"] rfl (by decide) (by decide)]
    change ((flat? (.object members)).bind fun draft => some _) = _
    cases flat? (.object members) <;> rfl
  | @apart before after name value hname =>
    obtain ⟨hvalue, hmissing, hsame⟩ := hflat.get?_member hname
    have hrest : IsFlat (before ++ after) :=
      hflat.sublist ((List.sublist_cons_self _ _).append_left before)
    have hpublication : publication? (.record [("repeatPub", value)]) =
        (⟨Record.entries fields (before ++ (name, value) :: after)⟩ : Record).optional? "repeatPub"
          WrittenRepetition.ofJson? := by
      rw [publication?, Record.read?_record (by decide) rfl]
      exact Record.optional?_congr hvalue.symm
    rw [nested?_record ["computingRules", "pubRules"] rfl (by decide) (by decide),
      hflat.flat?_eq, ofRecord?_of_apart hsame hmissing, ← hpublication]
    change (flat? (.object (before ++ after))).bind (fun draft =>
      ((publication? (.record [("repeatPub", value)])).map some).map fun publication => _) = _
    rw [hrest.flat?_eq]
    cases hdraft : ofRecord? ⟨Record.entries fields (before ++ after)⟩ with
    | none => rfl
    | some draft =>
      have hrepeats := repeats_of_missing hmissing hdraft
      cases publication? (.record [("repeatPub", value)]) <;> simp [hrepeats]

/-- As a flat rule, a nested layout writes nothing. -/
theorem Nests.flat?_eq (h : Nests members j') : flat? j' = some blank := by
  have hblank : ∀ parts : List (String × Json),
      parts.map Prod.fst ⊆ ["computingRules", "pubRules"] → flat? (.record parts) = some blank := by
    intro parts hparts
    have hentries : Record.entries fields
        (parts.map fun part => (Quoted.ofText part.1, part.2)) = [] := by
      rw [Record.entries, List.filterMap_eq_nil_iff, List.forall_mem_map]
      intro part hpart
      have hunknown : fields.find? (·.isCalled part.1) = none := by
        rcases List.mem_pair.mp (hparts (List.mem_map_of_mem hpart)) with hname | hname <;>
          rw [hname] <;> rfl
      simp [Record.meaning?, hunknown]
    have hreadable : Record.Readable fields
        (parts.map fun part => (Quoted.ofText part.1, part.2)) := by
      refine ⟨List.forall_mem_map.mpr fun part _ => by simp, ?_⟩
      rw [hentries]
      exact List.nodup_nil
    rw [flat?, Json.record, Record.read?, Record.ofMembers?_eq, if_pos hreadable, hentries]
    rfl
  cases h <;> exact hblank _ (by simp)

/-- A nested layout is sound if the flat rule is. -/
theorem Nests.isSound_eq (h : Nests members j') (hdepth : (Json.object members).depth < room) :
    j'.isSound room = (Json.object members).isSound room := by
  have hfits : Json.depthOfMembers members ≤ 123 :=
    Nat.le_of_lt_succ (Nat.lt_of_succ_lt_succ hdepth)
  have hflat : (Json.object members).isSound room = Json.membersAreSound 123 members :=
    Json.membersAreSound_of_depth 1 members hfits
  have hdecode : ∀ s : String, (Quoted.ofText s).decode?.isSome = true := by
    intro s
    rw [Quoted.ofText, Quoted.decode?_encode]
    rfl
  have hroom : room = 123 + 1 + 1 := rfl
  rw [hflat, hroom]
  cases h with
  | within => simp [Json.record, Json.isSound, Json.membersAreSound, hdecode]
  | beside => simp [Json.record, Json.isSound, Json.membersAreSound, hdecode]
  | @apart before after name value hname =>
    have hlegible : name.decode?.isSome = true := by
      cases hdecode : name.decode? with
      | none =>
        rw [Record.meaning?, Quoted.text?, hdecode] at hname
        cases hname
      | some cs => rfl
    simp [Json.record, Json.isSound, Json.membersAreSound, Json.membersAreSound_append, hdecode,
      hlegible, Bool.and_comm, Bool.and_left_comm]

/-- A nested layout has the draft of the flat rule; where that is refused, it has the blank draft or
is refused as well. -/
theorem Relaid.ofJson?_cases (h : Relaid j j') :
    ofJson? j' = ofJson? j ∨ (ofJson? j = none ∧ ofJson? j' = some blank) := by
  obtain ⟨members, rfl, hflat, hdepth, hnests⟩ := h
  rw [ofJson?, ofJson?, hnests.isSound_eq hdepth, hnests.nested?_eq hflat, hnests.flat?_eq,
    hflat.nested?_eq_none]
  cases (Json.object members).isSound room with
  | false => exact .inl rfl
  | true =>
    cases flat? (.object members) with
    | none => exact .inr ⟨rfl, rfl⟩
    | some d => exact .inl rfl

/-- Rules in another layout have the same drafts; where one of them is refused, it has the blank
draft or one is refused as well. -/
theorem mapM_ofJson?_cases {items items' : List Json}
    (h : List.Forall₂ (fun j j' => j = j' ∨ Relaid j j') items items') :
    items'.mapM ofJson? = items.mapM ofJson? ∨
      (items.mapM ofJson? = none ∧
        ∀ drafts, items'.mapM ofJson? = some drafts → blank ∈ drafts) := by
  induction h with
  | nil => exact .inl rfl
  | @cons j j' items items' hfirst _ ih =>
    have hcases : ofJson? j' = ofJson? j ∨ (ofJson? j = none ∧ ofJson? j' = some blank) := by
      rcases hfirst with rfl | hrelaid
      · exact .inl rfl
      · exact hrelaid.ofJson?_cases
    rcases hcases with hsame | ⟨hnone, hblank⟩
    · rcases ih with hrest | ⟨hrest, hblanks⟩
      · exact .inl (by rw [List.mapM_cons, List.mapM_cons, hsame, hrest])
      · refine .inr ⟨?_, fun drafts hdrafts => ?_⟩
        · rw [List.mapM_cons, hrest]
          cases ofJson? j <;> rfl
        · obtain ⟨d, rest, -, hsome, rfl⟩ := exists_of_mapM_cons hdrafts
          exact List.mem_cons_of_mem d (hblanks rest hsome)
    · refine .inr ⟨by rw [List.mapM_cons, hnone]; rfl, fun drafts hdrafts => ?_⟩
      obtain ⟨d, rest, hd, -, rfl⟩ := exists_of_mapM_cons hdrafts
      obtain rfl := Option.some.inj (hblank.symm.trans hd)
      exact List.mem_cons_self

end RuleDraft

namespace TopicDraft

/-- Documents of topics that differ in the layout of some rules. -/
inductive Relaid : Json → Json → Prop
  | named {before after : List (Quoted × Json)} {name : Quoted} {items items' : List Json}
    (hname : name.text? = some "rules")
    (h : List.Forall₂ (fun j j' => j = j' ∨ RuleDraft.Relaid j j') items items') :
    Relaid (.object (before ++ (name, .array items) :: after))
      (.object (before ++ (name, .array items') :: after))
  | listed {device point start stop : Json} {items items' : List Json}
    (h : List.Forall₂ (fun j j' => j = j' ∨ RuleDraft.Relaid j j') items items') :
    Relaid (.array [device, point, start, stop, .array items])
      (.array [device, point, start, stop, .array items'])

/-- The draft of the members of a topic document. -/
def ofRecord? (r : Record) : Option TopicDraft :=
  (r.required? "deviceName" Json.text?).bind fun device =>
  (r.required? "endpointName" Json.text?).bind fun point =>
  (r.optional? "startTime" WrittenTime.ofJson?).bind fun start =>
  (r.optional? "endTime" WrittenTime.ofJson?).bind fun stop =>
  (r.defaulted? "rules" rulesOfJson? []).map fun rules => { device, point, start, stop, rules }

theorem ofJson?_eq (j : Json) : ofJson? j = (Record.read? fields j).bind ofRecord? := rfl

theorem rules_of_ofRecord? {r : Record} {d : TopicDraft} (h : ofRecord? r = some d) :
    r.defaulted? "rules" rulesOfJson? [] = some d.rules := by
  simp only [ofRecord?, Option.bind_eq_some_iff, Option.map_eq_some_iff] at h
  obtain ⟨device, -, point, -, start, -, stop, -, rules, hrules, rfl⟩ := h
  exact hrules

/-- The members of a topic document and the rules among them tell its draft. -/
theorem ofRecord?_congr {r r' : Record} (hsame : ∀ name ≠ "rules", r'.get? name = r.get? name)
    (hrules : r'.defaulted? "rules" rulesOfJson? [] = r.defaulted? "rules" rulesOfJson? []) :
    ofRecord? r' = ofRecord? r := by
  simp only [ofRecord?, hrules, Record.required?, hsame "deviceName" (by decide),
    hsame "endpointName" (by decide), Record.optional?_congr (hsame "startTime" (by decide)),
    Record.optional?_congr (hsame "endTime" (by decide))]

/-- Documents that differ in the layout of rules are read as records that differ in the same way, or
both are refused. -/
theorem Relaid.read?_cases {doc doc' : Json} (h : Relaid doc doc') :
    (Record.read? fields doc = none ∧ Record.read? fields doc' = none) ∨
      ∃ r r' : Record, Record.read? fields doc = some r ∧ Record.read? fields doc' = some r' ∧
        (∀ name ≠ "rules", r'.get? name = r.get? name) ∧
        (r'.get? "rules" = r.get? "rules" ∨ ∃ items items',
          List.Forall₂ (fun j j' => j = j' ∨ RuleDraft.Relaid j j') items items' ∧
            r.get? "rules" = some (.array items) ∧ r'.get? "rules" = some (.array items')) := by
  cases h with
  | @listed device point start stop items items' h =>
    refine .inr ⟨_, _, rfl, rfl, fun name hname => ?_, .inr ⟨items, items', h, rfl, rfl⟩⟩
    simp [Record.get?, fields, Json.Field.plain, Json.Field.lax, List.lookup_cons,
      beq_eq_false_iff_ne.mpr hname]
  | @named before after name items items' hname h =>
    have hmeaning : ∀ j, Record.meaning? fields (name, j) = some "rules" :=
      fun j => (Record.meaning?_eq_some_iff (by decide) (by decide)).mpr hname
    have hentries : ∀ j, Record.entries fields (before ++ (name, j) :: after) =
        Record.entries fields before ++ ("rules", j) :: Record.entries fields after := by
      intro j
      rw [Record.entries_append, Record.entries_cons]
      simp [Record.entries, hmeaning j]
    have hreadable : Record.Readable fields (before ++ (name, .array items) :: after) ↔
        Record.Readable fields (before ++ (name, .array items') :: after) := by
      simp only [Record.Readable, hentries, List.forall_mem_append, List.forall_mem_cons,
        List.map_append, List.map_cons]
    simp only [Record.read?, Record.ofMembers?_eq, hreadable]
    split
    · refine .inr ⟨_, _, rfl, rfl, fun other hother => ?_, ?_⟩
      · simp [hentries, Record.get?, List.lookup_append, List.lookup_cons,
          beq_eq_false_iff_ne.mpr hother]
      · simp only [hentries, Record.get?_append]
        cases (⟨Record.entries fields before⟩ : Record).get? "rules" with
        | some j => exact .inl rfl
        | none => exact .inr ⟨items, items', h, rfl, rfl⟩
    · exact .inl ⟨rfl, rfl⟩

/-- A document whose rules have another layout has the same draft; where the first is refused, a
rule of the second is blank or it is refused as well. -/
theorem Relaid.ofJson?_cases {doc doc' : Json} (h : Relaid doc doc') :
    ofJson? doc' = ofJson? doc ∨
      (ofJson? doc = none ∧ ∀ d, ofJson? doc' = some d → RuleDraft.blank ∈ d.rules) := by
  rw [ofJson?_eq, ofJson?_eq]
  rcases h.read?_cases with ⟨hread, hread'⟩ | ⟨r, r', hread, hread', hsame, hrules⟩
  · rw [hread, hread']
    exact .inl rfl
  · rw [hread, hread', Option.bind_some, Option.bind_some]
    rcases hrules with hrules | ⟨items, items', hitems, hget, hget'⟩
    · exact .inl (ofRecord?_congr hsame (by rw [Record.defaulted?, Record.defaulted?, hrules]))
    · have hread : r.defaulted? "rules" rulesOfJson? [] = items.mapM RuleDraft.ofJson? := by
        rw [Record.defaulted?, hget]
        rfl
      have hread' : r'.defaulted? "rules" rulesOfJson? [] = items'.mapM RuleDraft.ofJson? := by
        rw [Record.defaulted?, hget']
        rfl
      rcases RuleDraft.mapM_ofJson?_cases hitems with hequal | ⟨hnone, hblank⟩
      · exact .inl (ofRecord?_congr hsame (by rw [hread, hread', hequal]))
      · refine .inr ⟨?_, fun d hd => hblank d.rules (hread' ▸ rules_of_ofRecord? hd)⟩
        rw [Option.eq_none_iff_forall_ne_some]
        intro d hd
        have hrules := rules_of_ofRecord? hd
        rw [hread, hnone] at hrules
        cases hrules

end TopicDraft

namespace TopicSpec

/-- No description has a blank rule. -/
theorem toOption_ofDraft_of_blank {d : TopicDraft} (h : RuleDraft.blank ∈ d.rules) :
    (ofDraft d).toOption = none := by
  cases hspec : ofDraft d with
  | error flaw => rfl
  | ok spec =>
    obtain ⟨i, hi⟩ := List.getElem?_of_mem h
    obtain ⟨r, hr, hgoverns⟩ := exists_governs hspec hi
    have hflaw := Ladder.flaw?_of_mem (List.mem_of_getElem? hr)
    have hbounds : r.boundsFlaw? = some .noBounds := by
      simp [Rule.boundsFlaw?, hgoverns.lower, hgoverns.upper, RuleDraft.blank]
    rw [Rule.flaw?, hbounds] at hflaw
    cases hflaw

/-- The flat and the nested layout of rules mean the same. Texts whose documents differ only in the
layout of some rules give the same description, or both give none. -/
theorem layouts_agree {text text' : String} {doc doc' : Json} (htext : Json.parse? text = some doc)
    (htext' : Json.parse? text' = some doc') (hrelaid : TopicDraft.Relaid doc doc') :
    (parse text').toOption = (parse text).toOption := by
  rw [parse_eq_ofJson htext, parse_eq_ofJson htext', ofJson, ofJson]
  rcases hrelaid.ofJson?_cases with hsame | ⟨hnone, hblank⟩
  · rw [hsame]
  · rw [hnone]
    cases hdraft : TopicDraft.ofJson? doc' with
    | none => rfl
    | some d => exact toOption_ofDraft_of_blank (hblank d hdraft)

/-- A topic document with some rules. -/
def documentOf (rules : List Json) : Json :=
  .record [("deviceName", .ofText "boiler"), ("endpointName", .ofText "pressure"),
    ("rules", .array rules)]

theorem parse?_documentOf {rules : List Json} (h : ∀ rule ∈ rules, rule.Legible) :
    Json.parse? (documentOf rules).compact = some (documentOf rules) := by
  apply Json.parse?_compact
  apply Json.legible_record
  simp only [List.forall_mem_cons]
  exact ⟨Json.legible_ofText _, Json.legible_ofText _, Json.legible_array h, by simp⟩

theorem relaid_documentOf {rules rules' : List Json}
    (h : List.Forall₂ (fun j j' => j = j' ∨ RuleDraft.Relaid j j') rules rules') :
    TopicDraft.Relaid (documentOf rules) (documentOf rules') :=
  @TopicDraft.Relaid.named [(.ofText "deviceName", .ofText "boiler"),
    (.ofText "endpointName", .ofText "pressure")] [] (.ofText "rules") _ _ (Quoted.text?_ofText _) h

/-- A rule whose repeat policy is moved into `pubRules`, and a rule that is refused because its
state is a text. -/
theorem layouts_agree_mixed :
    let lower : List (String × Json) := [("state", .ofInt 1), ("lowerBound", .ofInt 0)]
    let upper : List (String × Json) := [("upperBound", .ofInt 10)]
    let wrong : List (String × Json) := [("state", .ofText "one"), ("lowerBound", .ofInt 0)]
    let flat := documentOf [.record (lower ++ ("repeatPub", .ofText "5s") :: upper)]
    let nested := documentOf
      [.record [("computingRules", .record (lower ++ upper)),
        ("pubRules", .record [("repeatPub", .ofText "5s")])]]
    let refused := documentOf
      [.record [("computingRules", .record wrong), ("pubRules", .record [])]]
    (parse nested.compact).toOption = (parse flat.compact).toOption ∧
      (parse nested.compact).toOption.map (fun spec => spec.ladder.rules) =
        some [⟨1, some 0.0, some 10.0, .both, 1000, 1000, .last, some (.duration 5000)⟩] ∧
      (parse refused.compact).toOption = none := by
  intro lower upper wrong flat nested refused
  have hrelaid : RuleDraft.Relaid (.record (lower ++ ("repeatPub", .ofText "5s") :: upper))
      (.record [("computingRules", .record (lower ++ upper)),
        ("pubRules", .record [("repeatPub", .ofText "5s")])]) :=
    ⟨_, rfl, ⟨by decide +kernel, by decide +kernel⟩, by decide +kernel,
      @RuleDraft.Nests.apart
        (lower.map fun (member : String × Json) => (.ofText member.1, member.2))
        (upper.map fun (member : String × Json) => (.ofText member.1, member.2))
        (.ofText "repeatPub") (.ofText "5s") (by decide +kernel)⟩
  have hrefused : RuleDraft.Relaid (.record wrong)
      (.record [("computingRules", .record wrong), ("pubRules", .record [])]) :=
    ⟨_, rfl, ⟨by decide +kernel, by decide +kernel⟩, by decide +kernel, .beside⟩
  have hlegible : (∀ member ∈ lower ++ upper, member.2.Legible) ∧
      (∀ member ∈ lower ++ ("repeatPub", .ofText "5s") :: upper, member.2.Legible) ∧
      ∀ member ∈ wrong, member.2.Legible := by
    simp [lower, upper, wrong, Json.legible_ofInt, Json.legible_ofText]
  obtain ⟨hapart, hwhole, hwrong⟩ := hlegible
  have hparts : ∀ {j j' : Json}, j.Legible → j'.Legible →
      ∀ rule ∈ [Json.record [("computingRules", j), ("pubRules", j')]], rule.Legible :=
    fun h h' => List.forall_mem_singleton.mpr (Json.legible_record
      (List.forall_mem_cons.mpr ⟨h, List.forall_mem_singleton.mpr h'⟩))
  have hpolicy : (Json.record [("repeatPub", .ofText "5s")]).Legible :=
    Json.legible_record (List.forall_mem_singleton.mpr (Json.legible_ofText "5s"))
  have hflat := parse?_documentOf (List.forall_mem_singleton.mpr (Json.legible_record hwhole))
  have hwritten := parse?_documentOf (List.forall_mem_singleton.mpr (Json.legible_record hwrong))
  have hagree := layouts_agree hflat
    (parse?_documentOf (hparts (Json.legible_record hapart) hpolicy))
    (relaid_documentOf (.cons (.inr hrelaid) .nil))
  have hagree' := layouts_agree hwritten
    (parse?_documentOf (hparts (Json.legible_record hwrong) (Json.legible_record (by simp))))
    (relaid_documentOf (.cons (.inr hrefused) .nil))
  refine ⟨hagree, ?_, ?_⟩
  · rw [hagree, parse_eq_ofJson hflat]
    decide +kernel
  · rw [hagree', parse_eq_ofJson hwritten]
    decide +kernel

end TopicSpec

end TelemetryBands
