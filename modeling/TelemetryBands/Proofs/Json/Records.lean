import Mathlib.Data.List.Nodup
import TelemetryBands.Json.Record
import TelemetryBands.Proofs.Json.Quoting

/-!
# Written records are read back

An object that holds distinct fields under their own names is read as the record of exactly these
fields. It has a value as a whole if its fields have.
-/

namespace TelemetryBands.Json

@[simp] theorem text?_ofText (s : String) : (ofText s).text? = some s :=
  Quoted.text?_ofText s

theorem ofText_ne_null (s : String) : ofText s ≠ .null := by
  intro h
  cases h

/-- A text has a value, however deep it stands. -/
theorem isSound_ofText (room : Nat) (s : String) : (ofText s).isSound room = true := by
  have hdecode : (Quoted.ofText s).decode? = some s.toList := Quoted.decode?_encode s.toList
  cases room <;> simp [ofText, isSound, hdecode]

/-- An object whose values have values has one itself, if there is room for it. -/
theorem isSound_record {room : Nat} {members : List (String × Json)}
    (h : ∀ member ∈ members, member.2.isSound room = true) :
    (record members).isSound (room + 1) = true := by
  rw [record, isSound]
  induction members with
  | nil => cases room <;> rfl
  | cons member members ih =>
    have hname : (Quoted.ofText member.1).decode? = some member.1.toList :=
      Quoted.decode?_encode member.1.toList
    have hrest := ih fun other hother => h other (List.mem_cons_of_mem member hother)
    simp [membersAreSound, hname, h member List.mem_cons_self, hrest]

end TelemetryBands.Json

namespace TelemetryBands.Json.Record

variable {fields : List Field} {members : List (String × Json)}

/-- Fields are distinct if they have different names and each is found under its own. -/
def Distinct (fields : List Field) : Prop :=
  (fields.map Field.name).Nodup ∧
    ∀ field ∈ fields, fields.find? (·.isCalled field.name) = some field

instance : Decidable (Distinct fields) :=
  inferInstanceAs (Decidable (_ ∧ _))

theorem get?_eq_none {done : List (String × Json)} {name : String}
    (h : name ∉ done.map Prod.fst) : (⟨done⟩ : Record).get? name = none := by
  rw [get?, List.lookup_eq_none_iff]
  intro member hmember
  rw [bne_iff_ne]
  rintro rfl
  exact h (List.mem_map_of_mem hmember)

theorem isSome_get? {done : List (String × Json)} {name : String} :
    ((⟨done⟩ : Record).get? name).isSome = true ↔ name ∈ done.map Prod.fst := by
  constructor
  · intro hsome
    by_contra hmem
    rw [get?_eq_none hmem] at hsome
    cases hsome
  · intro hmem
    by_contra hnone
    rw [Bool.not_eq_true, Option.isSome_eq_false_iff, Option.isNone_iff_eq_none, get?,
      List.lookup_eq_none_iff] at hnone
    obtain ⟨member, hmember, rfl⟩ := List.mem_map.mp hmem
    simpa using hnone member hmember

/-- Where no field is there twice, a field is found with the value that it has. -/
theorem get?_eq_some_iff {done : List (String × Json)} (hdone : (done.map Prod.fst).Nodup)
    {name : String} {value : Json} :
    (⟨done⟩ : Record).get? name = some value ↔ (name, value) ∈ done := by
  rw [get?, List.lookup_eq_some_iff]
  constructor
  · rintro ⟨before, after, rfl, -⟩
    exact List.mem_append_right before List.mem_cons_self
  · intro hmem
    obtain ⟨before, after, rfl⟩ := List.append_of_mem hmem
    rw [List.map_append, List.map_cons, List.nodup_middle, List.nodup_cons, List.mem_append,
      not_or] at hdone
    refine ⟨before, after, rfl, fun member hmember => bne_iff_ne.mpr fun heq => ?_⟩
    have hagain : member.1 ∈ before.map Prod.fst := List.mem_map_of_mem hmember
    exact hdone.1.1 (heq ▸ hagain)

/-- The name of the field that a member of an object means. -/
def meaning? (fields : List Field) (member : Quoted × Json) : Option String :=
  member.1.text?.bind fun name => (fields.find? (·.isCalled name)).map Field.name

/-- Where the fields have no other spelling, a field is meant by its own name. -/
theorem meaning?_eq_some_iff {member : Quoted × Json} {name : String}
    (hplain : ∀ field ∈ fields, field.spelling = none) (hname : name ∈ fields.map Field.name) :
    meaning? fields member = some name ↔ member.1.text? = some name := by
  have hcalled : ∀ field ∈ fields, ∀ text, field.isCalled text = true ↔ field.name = text := by
    intro field hfield text
    simp [Field.isCalled, hplain field hfield]
  have hfound : ∀ {text field}, fields.find? (·.isCalled text) = some field →
      field.name = text := by
    intro text field hfind
    have hcall : field.isCalled text = true := by simpa using List.find?_some hfind
    exact (hcalled field (List.mem_of_find?_eq_some hfind) text).mp hcall
  rw [meaning?]
  cases member.1.text? with
  | none => simp
  | some text =>
    simp only [Option.bind_some, Option.map_eq_some_iff, Option.some.injEq]
    constructor
    · rintro ⟨field, hfind, rfl⟩
      exact (hfound hfind).symm
    · rintro rfl
      obtain ⟨field, hfield, hown⟩ := List.mem_map.mp hname
      have hsome : (fields.find? (·.isCalled text)).isSome = true :=
        List.find?_isSome.mpr ⟨field, hfield, (hcalled field hfield text).mpr hown⟩
      obtain ⟨found, hfind⟩ := Option.isSome_iff_exists.mp hsome
      exact ⟨found, hfind, hfound hfind⟩

/-- The members of an object that mean fields, under the names of the fields. -/
def entries (fields : List Field) (members : List (Quoted × Json)) : List (String × Json) :=
  members.filterMap fun member => (meaning? fields member).map (·, member.2)

theorem mem_entries {members : List (Quoted × Json)} {name : String} {value : Json} :
    (name, value) ∈ entries fields members ↔
      ∃ member ∈ members, meaning? fields member = some name ∧ member.2 = value := by
  simp only [entries, List.mem_filterMap, Option.map_eq_some_iff, Prod.mk.injEq]
  constructor
  · rintro ⟨member, hmember, _, hname, rfl, rfl⟩
    exact ⟨member, hmember, hname, rfl⟩
  · rintro ⟨member, hmember, hname, rfl⟩
    exact ⟨member, hmember, name, hname, rfl, rfl⟩

/-- The members of an object are those of a record: their names are texts, and no two of them mean
one field. -/
def Readable (fields : List Field) (members : List (Quoted × Json)) : Prop :=
  (∀ member ∈ members, member.1.text?.isSome) ∧ ((entries fields members).map Prod.fst).Nodup

instance (members : List (Quoted × Json)) : Decidable (Readable fields members) :=
  inferInstanceAs (Decidable (_ ∧ _))

theorem entries_append (fields : List Field) (before after : List (Quoted × Json)) :
    entries fields (before ++ after) = entries fields before ++ entries fields after :=
  List.filterMap_append

theorem entries_cons (fields : List Field) (member : Quoted × Json)
    (members : List (Quoted × Json)) :
    entries fields (member :: members) = entries fields [member] ++ entries fields members :=
  entries_append fields [member] members

theorem get?_append (before after : List (String × Json)) (name : String) :
    (⟨before ++ after⟩ : Record).get? name =
      ((⟨before⟩ : Record).get? name).or ((⟨after⟩ : Record).get? name) :=
  List.lookup_append

/-- A member is added if its name is a text and it means no field that is there already. -/
theorem addMember_eq {done : List (String × Json)} (hdone : (done.map Prod.fst).Nodup)
    (member : Quoted × Json) :
    addMember fields ⟨done⟩ member =
      if member.1.text?.isSome ∧ ((done ++ entries fields [member]).map Prod.fst).Nodup then
        some ⟨done ++ entries fields [member]⟩
      else none := by
  rw [addMember]
  cases htext : member.1.text? with
  | none => rfl
  | some name =>
    cases hfield : fields.find? (·.isCalled name) with
    | none =>
      have hentries : entries fields [member] = [] := by simp [entries, meaning?, htext, hfield]
      simp [hentries, hfield, hdone]
    | some field =>
      have hentries : entries fields [member] = [(field.name, member.2)] := by
        simp [entries, meaning?, htext, hfield]
      have hnodup : ((done ++ [(field.name, member.2)]).map Prod.fst).Nodup ↔
          field.name ∉ done.map Prod.fst := by
        rw [List.map_append, List.nodup_append_comm]
        simp [hdone]
      rw [hentries]
      by_cases hold : field.name ∈ done.map Prod.fst
      · simp only [Option.bind_some, hfield, isSome_get?.mpr hold, hnodup, hold]
        rfl
      · simp only [Option.bind_some, hfield, get?_eq_none hold, hnodup, hold]
        rfl

/-- Members are added one by one. -/
theorem foldlM_addMember {done : List (String × Json)} (hdone : (done.map Prod.fst).Nodup)
    (members : List (Quoted × Json)) :
    members.foldlM (addMember fields) ⟨done⟩ =
      if (∀ member ∈ members, member.1.text?.isSome) ∧
          ((done ++ entries fields members).map Prod.fst).Nodup then
        some ⟨done ++ entries fields members⟩
      else none := by
  induction members generalizing done with
  | nil => simp [entries, hdone]
  | cons member members ih =>
    have hsplit : done ++ entries fields (member :: members) =
        done ++ entries fields [member] ++ entries fields members := by
      rw [entries_cons, List.append_assoc]
    rw [List.foldlM_cons, addMember_eq hdone]
    split
    · rename_i hadded
      rw [Option.bind_eq_bind, Option.bind_some, ih hadded.2, hsplit]
      simp only [List.forall_mem_cons, hadded.1, true_and]
    · rename_i hrefused
      symm
      apply if_neg
      rintro ⟨htexts, hnodup⟩
      rw [hsplit, List.map_append] at hnodup
      exact hrefused ⟨htexts member List.mem_cons_self, hnodup.of_append_left⟩

/-- An object is read as the record of the fields that its members mean. -/
theorem ofMembers?_eq (fields : List Field) (members : List (Quoted × Json)) :
    ofMembers? fields members =
      if Readable fields members then some ⟨entries fields members⟩ else none := by
  have hnone : (([] : List (String × Json)).map Prod.fst).Nodup := List.nodup_nil
  exact foldlM_addMember hnone members

/-- Members under the own names of fields mean these fields. -/
theorem entries_record (h : ∀ name ∈ members.map Prod.fst,
      (fields.find? (·.isCalled name)).map Field.name = some name) :
    entries fields (members.map fun member => (Quoted.ofText member.1, member.2)) = members := by
  induction members with
  | nil => rfl
  | cons member members ih =>
    have hmeaning : meaning? fields (Quoted.ofText member.1, member.2) = some member.1 := by
      rw [meaning?, Quoted.text?_ofText, Option.bind_some]
      exact h member.1 List.mem_cons_self
    have hfirst : entries fields [(Quoted.ofText member.1, member.2)] = [member] := by
      simp only [entries, List.filterMap_cons, hmeaning, Option.map_some, List.filterMap_nil]
    rw [List.map_cons, entries_cons, hfirst,
      ih fun name hmem => h name (List.mem_cons_of_mem member.1 hmem), List.singleton_append]

/-- Some fields under their own names are read back. -/
theorem readObject?_record (names : List String) (hnames : members.map Prod.fst = names)
    (hown : ∀ name ∈ names, (fields.find? (·.isCalled name)).map Field.name = some name)
    (hnodup : names.Nodup) : readObject? fields (record members) = some ⟨members⟩ := by
  rw [← hnames] at hown hnodup
  have hreadable : Readable fields (members.map fun member =>
      (Quoted.ofText member.1, member.2)) := by
    refine ⟨List.forall_mem_map.mpr fun member _ => by simp, ?_⟩
    rwa [entries_record hown]
  rw [record, readObject?, ofMembers?_eq, if_pos hreadable, entries_record hown]

/-- A record of distinct fields is read back. -/
theorem read?_record (hdistinct : Distinct fields)
    (hfields : members.map Prod.fst = fields.map Field.name) :
    read? fields (record members) = some ⟨members⟩ := by
  refine readObject?_record _ hfields (fun name hname => ?_) hdistinct.1
  obtain ⟨field, hfield, rfl⟩ := List.mem_map.mp hname
  rw [hdistinct.2 field hfield, Option.map_some]

variable {α : Type} {r : Record} {name : String} {value? : Json → Option α} {f : α → Json}

/-- What is read of a field depends on the value of the field alone. -/
theorem optional?_congr {r' : Record} (h : r'.get? name = r.get? name) :
    r'.optional? name value? = r.optional? name value? := by
  rw [optional?, optional?, h]

/-- A field that may be missing can be read if it is missing, is `null` or has a value. -/
theorem isSome_optional?_iff :
    (r.optional? name value?).isSome ↔
      ∀ j, r.get? name = some j → j.isNull ∨ (value? j).isSome := by
  rw [optional?]
  cases r.get? name with
  | none => simp
  | some j => cases j <;> simp [isNull]

/-- A field that holds a value or `null` is read back. -/
theorem optional?_ofOption (hread : ∀ a, value? (f a) = some a) (hnull : ∀ a, f a ≠ .null)
    {value : Option α} (h : r.get? name = some (.ofOption f value)) :
    r.optional? name value? = some value := by
  rw [optional?, h]
  cases value with
  | none => rfl
  | some a =>
    split
    · rename_i heq
      cases heq
    · rename_i heq
      exact absurd (Option.some.inj heq) (hnull a)
    · rename_i heq
      obtain rfl := Option.some.inj heq
      rw [ofOption, hread, Option.map_some]

theorem required?_eq {j : Json} (h : r.get? name = some j) :
    r.required? name value? = value? j := by
  rw [required?, h, Option.bind_some]

end TelemetryBands.Json.Record
