import TelemetryBands.Topic.Repetition

/-!
# Written rules

A topic document writes a rule in one of two layouts. The flat layout names all members beside each
other; the nested layout has the members about windows and bands in `computingRules` and those about
publication in `pubRules`. A rule is read as nested if it can be, else as flat.
-/

namespace TelemetryBands

/-- An exclusion as a document writes it. -/
inductive WrittenExclusion where
  | code (n : Nat)
  | name (s : String)
  deriving DecidableEq, Repr

/-- The members of a written rule. -/
structure RuleDraft where
  state : Option UInt32
  lower : Option Float
  upper : Option Float
  exclusion : Option WrittenExclusion
  windowSize : Option WrittenDuration
  windowOffset : Option WrittenDuration
  aggregation : Option String
  repeats : Option WrittenRepetition
  deriving DecidableEq, Repr

/-- The written exclusion that a document holds. -/
def WrittenExclusion.ofJson? (j : Json) : Option WrittenExclusion :=
  ((j.int? 0 255).map fun i => .code i.toNat) <|> (j.text?.map .name)

namespace RuleDraft

/-- The members of the flat layout, in the order in which an array lists them. -/
def fields : List Json.Field :=
  [.lax "state", .lax "lowerBound", .lax "upperBound", .lax "excludeRule", .lax "windowSize",
   .lax "windowOffset",
   { name := "aggregation", spelling := some "Aggregation", omissible := true },
   .lax "repeatPub"]

/-- The draft of the members of a rule. -/
def ofRecord? (r : Json.Record) : Option RuleDraft :=
  (r.optional? "state" Json.word32?).bind fun state =>
  (r.optional? "lowerBound" Json.real?).bind fun lower =>
  (r.optional? "upperBound" Json.real?).bind fun upper =>
  (r.optional? "excludeRule" WrittenExclusion.ofJson?).bind fun exclusion =>
  (r.optional? "windowSize" WrittenDuration.ofJson?).bind fun windowSize =>
  (r.optional? "windowOffset" WrittenDuration.ofJson?).bind fun windowOffset =>
  (r.optional? "aggregation" Json.text?).bind fun aggregation =>
  (r.optional? "repeatPub" WrittenRepetition.ofJson?).map fun repeats =>
    { state, lower, upper, exclusion, windowSize, windowOffset, aggregation, repeats }

/-- The draft of a rule in the flat layout. -/
def flat? (j : Json) : Option RuleDraft :=
  (Json.Record.read? fields j).bind ofRecord?

/-- The repeat policy in the `pubRules` of the nested layout, if it has one there. -/
def publication? (j : Json) : Option (Option WrittenRepetition) :=
  (Json.Record.read? [.lax "repeatPub"] j).bind fun r =>
    r.optional? "repeatPub" WrittenRepetition.ofJson?

/-- The draft of a rule in the nested layout. -/
def nested? (j : Json) : Option RuleDraft :=
  (Json.Record.readObject? [.plain "computingRules", .plain "pubRules"] j).bind fun r =>
  (r.required? "computingRules" flat?).bind fun draft =>
  (r.optional? "pubRules" publication?).map fun publication =>
    { draft with repeats := publication.join <|> draft.repeats }

/-- The containers that may stand inside each other in a rule, which itself stands in two others. -/
def room : Nat := Json.depthLimit - 2

/-- The draft that a document holds. -/
def ofJson? (j : Json) : Option RuleDraft :=
  if j.isSound room then nested? j <|> flat? j else none

/-- Why a draft is no rule. -/
inductive Flaw where
  | exclusionCode (state : UInt32) (code : Nat)
  | exclusionName (state : UInt32) (name : String)
  | duration (flaw : WrittenDuration.Flaw)
  | aggregation (flaw : Aggregation.Flaw)
  | repetition (flaw : WrittenRepetition.Flaw)
  deriving DecidableEq, Repr

/-- The failure that a flaw is answered with. -/
def Flaw.failure : Flaw → Failure
  | .exclusionCode state code => ⟨.validation, s!"state {state}: unknown excludeRule code {code}"⟩
  | .exclusionName state name => ⟨.validation, s!"state {state}: unknown excludeRule '{name}'"⟩
  | .duration flaw => flaw.failure
  | .aggregation flaw => flaw.failure
  | .repetition flaw => flaw.failure

/-- The exclusion that a rule for a state writes; both bounds are excluded if it writes none. -/
def exclusionOf (state : UInt32) : Option WrittenExclusion → Except Flaw Exclusion
  | none => .ok .both
  | some (.code code) =>
    match Exclusion.ofCode? code with
    | some exclusion => .ok exclusion
    | none => .error (.exclusionCode state code)
  | some (.name name) =>
    match Exclusion.ofName? name with
    | some exclusion => .ok exclusion
    | none => .error (.exclusionName state name)

/-- A written duration, or the one that stands for it when it is missing. -/
def durationOr (missing : Millis) : Option WrittenDuration → Except Flaw Millis
  | none => .ok missing
  | some d => d.value.mapError .duration

/-- The aggregation that is written; the last value if none is. -/
def aggregationOf : Option String → Except Flaw Aggregation
  | none => .ok .last
  | some text => (Aggregation.parse text).mapError .aggregation

/-- The repeat policy that is written, if one is. -/
def repetitionOf : Option WrittenRepetition → Except Flaw (Option RepeatPolicy)
  | none => .ok none
  | some r => (r.value.map some).mapError .repetition

/-- The rule of the draft that stands at a place of the document. A rule without a state has its
place for a state, and without an offset its windows follow each other. -/
def rule (d : RuleDraft) (index : Nat) : Except Flaw Rule := do
  let state := d.state.getD (UInt32.ofNat index)
  let exclusion ← exclusionOf state d.exclusion
  let windowSize ← durationOr Rule.defaultWindow d.windowSize
  let windowOffset ← durationOr windowSize d.windowOffset
  let aggregation ← aggregationOf d.aggregation
  let repeats ← repetitionOf d.repeats
  return {
    state, lower := d.lower, upper := d.upper, exclusion, windowSize, windowOffset, aggregation,
    repeats }

end RuleDraft

end TelemetryBands
