import TelemetryBands.Json.Number
import TelemetryBands.Json.Quoted

/-!
# Documents as trees

The syntax tree of a document. Numbers and strings are kept as they are written, members in their
order and with repetitions, so that each reader decides what it looks at and how strictly: `isSound`
is the condition under which a whole subtree has a value.
-/

namespace TelemetryBands

/-- The syntax tree of a document. -/
inductive Json where
  | null
  | bool (b : Bool)
  | number (n : Decimal.Numeral)
  | string (q : Quoted)
  | array (items : List Json)
  | object (members : List (Quoted × Json))
  deriving Repr

namespace Json

instance : Inhabited Json := ⟨.null⟩

/-- The containers that may stand inside each other where a value is built, the outermost
included. -/
def depthLimit : Nat := 127

mutual

/-- Whether every number and string of a tree has a value and at most `room` containers stand inside
each other. -/
def isSound : (room : Nat) → Json → Bool
  | _, .null => true
  | _, .bool _ => true
  | _, .number n => n.real?.isSome
  | _, .string q => q.decode?.isSome
  | 0, .array _ => false
  | room + 1, .array items => areSound room items
  | 0, .object _ => false
  | room + 1, .object members => membersAreSound room members

/-- Whether all items of an array are sound. -/
def areSound : (room : Nat) → List Json → Bool
  | _, [] => true
  | room, item :: items => isSound room item && areSound room items

/-- Whether all names and values of an object are sound. -/
def membersAreSound : (room : Nat) → List (Quoted × Json) → Bool
  | _, [] => true
  | room, (name, value) :: members =>
    name.decode?.isSome && isSound room value && membersAreSound room members

end

/-- The integer of a number, if it has one between the given bounds. -/
def int? (low high : Int) : Json → Option Int
  | .number n => n.int?.bind fun i => if low ≤ i ∧ i ≤ high then some i else none
  | _ => none

/-- The floating-point number of a number. -/
def real? : Json → Option Float
  | .number n => n.real?
  | _ => none

/-- The text of a string. -/
def text? : Json → Option String
  | .string q => q.text?
  | _ => none

/-- The truth value of a truth value. -/
def bool? : Json → Option Bool
  | .bool b => some b
  | _ => none

/-- Whether a tree is the word `null`. -/
def isNull : Json → Bool
  | .null => true
  | _ => false

/-- A string. -/
def ofText (s : String) : Json :=
  .string (Quoted.ofText s)

/-- An integer. -/
def ofInt (n : Int) : Json :=
  .number (Decimal.Numeral.ofInt n)

/-- A floating-point number; infinite and undefined numbers have no numeral and become `null`. -/
def ofFloat (x : Float) : Json :=
  match Decimal.parts x with
  | .finite negative b => .number (Json.numbers.numeral negative b)
  | _ => .null

/-- A value that may be missing. -/
def ofOption {α : Type} (f : α → Json) : Option α → Json
  | none => .null
  | some a => f a

/-- An object with named members. -/
def record (members : List (String × Json)) : Json :=
  .object (members.map fun member => (Quoted.ofText member.1, member.2))

end Json

end TelemetryBands
