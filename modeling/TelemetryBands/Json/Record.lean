import TelemetryBands.Json.Tree

/-!
# Records in documents

A record is a value with a fixed list of named fields. It is written as an object, where a field may
stand once, in any place, beside names that mean nothing; or as an array of the fields in their
order, where fields that have a default may be left out at the end.
-/

namespace TelemetryBands.Json

/-- A field of a record. -/
structure Field where
  name : String
  /-- Another spelling of the name. -/
  spelling : Option String := none
  /-- Whether an array may end before this field. -/
  omissible : Bool := false
  deriving DecidableEq, Repr

/-- A field that an array must not leave out. -/
def Field.plain (name : String) : Field :=
  { name }

/-- A field that an array may leave out at its end. -/
def Field.lax (name : String) : Field :=
  { name, omissible := true }

/-- Whether a name means a field. -/
def Field.isCalled (f : Field) (name : String) : Bool :=
  f.name == name || f.spelling == some name

/-- The fields that a record holds, under their own names. -/
structure Record where
  fields : List (String × Json)
  deriving Repr

namespace Record

/-- The value of a field. -/
def get? (r : Record) (name : String) : Option Json :=
  r.fields.lookup name

/-- Adds a member of an object: a name that means nothing is passed over, and a field that the
record holds already is refused. -/
def addMember (fields : List Field) (r : Record) (member : Quoted × Json) : Option Record :=
  member.1.text?.bind fun name =>
    match fields.find? (·.isCalled name) with
    | none => some r
    | some field =>
      if (r.get? field.name).isSome then none
      else some ⟨r.fields ++ [(field.name, member.2)]⟩

/-- The record of an object. -/
def ofMembers? (fields : List Field) (members : List (Quoted × Json)) : Option Record :=
  members.foldlM (addMember fields) ⟨[]⟩

/-- The record of an array. -/
def ofItems? (fields : List Field) (items : List Json) : Option Record :=
  if items.length ≤ fields.length ∧ (fields.drop items.length).all Field.omissible then
    some ⟨(fields.map Field.name).zip items⟩
  else none

/-- The record of an object or of an array. -/
def read? (fields : List Field) : Json → Option Record
  | .object members => ofMembers? fields members
  | .array items => ofItems? fields items
  | _ => none

/-- The record of an object only. -/
def readObject? (fields : List Field) : Json → Option Record
  | .object members => ofMembers? fields members
  | _ => none

variable {α : Type}

/-- A field that must be there. -/
def required? (r : Record) (name : String) (value? : Json → Option α) : Option α :=
  (r.get? name).bind value?

/-- A field that may be missing or `null`. -/
def optional? (r : Record) (name : String) (value? : Json → Option α) : Option (Option α) :=
  match r.get? name with
  | none => some none
  | some .null => some none
  | some j => (value? j).map some

/-- A field that may be missing, with the value that it has then. -/
def defaulted? (r : Record) (name : String) (value? : Json → Option α) (missing : α) : Option α :=
  match r.get? name with
  | none => some missing
  | some j => value? j

end Record

end TelemetryBands.Json
