import TelemetryBands.Text.Blank
import TelemetryBands.Text.Casing

/-!
# Excluded bounds

A band lies between two bounds, and an exclusion says which of the bounds do not belong to it.
Documents name an exclusion by a code or by a word.
-/

namespace TelemetryBands

/-- Which bounds of a band do not belong to it. -/
inductive Exclusion where
  /-- Neither bound belongs to the band. -/
  | both
  /-- Only the upper bound belongs to the band. -/
  | upperIncluded
  /-- Only the lower bound belongs to the band. -/
  | lowerIncluded
  /-- Both bounds belong to the band. -/
  | none
  deriving DecidableEq, Repr, Inhabited

namespace Exclusion

/-- The exclusion of a code. -/
def ofCode? : Nat → Option Exclusion
  | 0 => some .both
  | 1 => some .upperIncluded
  | 2 => some .lowerIncluded
  | 3 => some .none
  | _ => Option.none

/-- A word without hyphens, underscores and white space, in lower case. -/
def simplify (name : String) : String :=
  String.ofList (Text.lower (name.toList.filter fun c => c != '_' && c != '-' && !Text.isBlank c))

/-- The exclusion of a word. -/
def ofName? (name : String) : Option Exclusion :=
  match simplify name with
  | "both" => some .both
  | "upperincluded" => some .upperIncluded
  | "lowerincluded" => some .lowerIncluded
  | "none" => some .none
  | _ => Option.none

/-- Whether the lower bound belongs to the band. -/
def includesLower : Exclusion → Bool
  | .lowerIncluded | .none => true
  | .both | .upperIncluded => false

/-- Whether the upper bound belongs to the band. -/
def includesUpper : Exclusion → Bool
  | .upperIncluded | .none => true
  | .both | .lowerIncluded => false

/-- The name of an exclusion. -/
def name : Exclusion → String
  | .both => "both"
  | .upperIncluded => "upper_included"
  | .lowerIncluded => "lower_included"
  | .none => "none"

end Exclusion

end TelemetryBands
