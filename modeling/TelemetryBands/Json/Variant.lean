import TelemetryBands.Json.Tree

/-!
# Alternatives in documents

One of several named alternatives is written as its name, or as an object whose only member has that
name and holds what belongs to the alternative. An alternative to which nothing belongs may be
written with `null` in that place.
-/

namespace TelemetryBands.Json

/-- The name of an alternative, with what belongs to it. -/
def variant? : Json → Option (String × Option Json)
  | .string q => q.text?.map fun name => (name, none)
  | .object [(q, value)] => q.text?.map fun name => (name, some value)
  | _ => none

/-- The name of an alternative to which nothing belongs. -/
def plainVariant? (j : Json) : Option String :=
  j.variant?.bind fun (name, value) =>
    match value with
    | none | some .null => some name
    | some _ => none

/-- What belongs to the alternative of a given name. -/
def variantValue? (j : Json) (name : String) : Option Json :=
  j.variant?.bind fun (found, value) => if found = name then value else none

/-- A 32-bit natural number. -/
def word32? (j : Json) : Option UInt32 :=
  (j.int? 0 (Text.limit32 - 1)).map fun i => UInt32.ofNat i.toNat

/-- A 64-bit natural number. -/
def word64? (j : Json) : Option UInt64 :=
  (j.int? 0 (Text.limit64 - 1)).map fun i => UInt64.ofNat i.toNat

/-- A 32-bit natural number as a document holds it. -/
def ofWord32 (n : UInt32) : Json :=
  ofInt n.toNat

/-- A 64-bit natural number as a document holds it. -/
def ofWord64 (n : UInt64) : Json :=
  ofInt n.toNat

end TelemetryBands.Json
