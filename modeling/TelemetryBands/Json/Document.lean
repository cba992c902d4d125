import TelemetryBands.Json.Tree

/-!
# Documents as plain values

Where a document is taken apart and handed on without regard to its meaning, it is first brought to
one form: members in the order of their names, of repeated members the last, and every number and
string written anew.
-/

namespace TelemetryBands.Json

/-- Puts a member into its place by name, in place of a member of the same name. -/
def putMember (name : String) (value : Json) : List (String × Json) → List (String × Json)
  | [] => [(name, value)]
  | member :: members =>
    if name < member.1 then (name, value) :: member :: members
    else if member.1 = name then (name, value) :: members
    else member :: putMember name value members

/-- A number written anew: integers as integers, all others as floating-point numbers. -/
def renumber? (n : Decimal.Numeral) : Option Json :=
  match n.int? with
  | some i => some (ofInt i)
  | none => n.float?.map ofFloat

mutual

/-- The one form of a document with at most `room` containers inside each other. -/
def settle? : (room : Nat) → Json → Option Json
  | _, .null => some .null
  | _, .bool b => some (.bool b)
  | _, .number n => renumber? n
  | _, .string q => q.text?.map ofText
  | 0, .array _ => none
  | room + 1, .array items => (settleItems? room items).map .array
  | 0, .object _ => none
  | room + 1, .object members =>
    (settleMembers? room members []).map Json.record

/-- The one form of each item of an array. -/
def settleItems? : (room : Nat) → List Json → Option (List Json)
  | _, [] => some []
  | room, item :: items =>
    (settle? room item).bind fun item => (settleItems? room items).map (item :: ·)

/-- The members of an object in the order of their names, added to members that are in order. -/
def settleMembers? : (room : Nat) → List (Quoted × Json) → List (String × Json) →
    Option (List (String × Json))
  | _, [], sorted => some sorted
  | room, (name, value) :: members, sorted =>
    name.text?.bind fun name =>
      (settle? room value).bind fun value =>
        settleMembers? room members (putMember name value sorted)

end

end TelemetryBands.Json
