import TelemetryBands.Clock.TimeText
import TelemetryBands.Json.Reader
import TelemetryBands.Ladder.Basic
import TelemetryBands.Topic.RuleDraft

/-!
# Topic descriptions

What a topic watches and how: an endpoint of a device, a ladder of rules, and the time range in
which samples count. `TopicSpec.parse` reads the document that describes a topic; of several flaws
it names the first in a fixed order: the shape of the document, the device name, the times, the
rules one by one, the ladder, the time range.
-/

namespace TelemetryBands

/-- Whether two ends, as far as there are two, are in order. -/
def inOrder (start stop : Option Millis) : Bool :=
  match start, stop with
  | some start, some stop => start < stop
  | _, _ => true

/-- The description of a topic. -/
structure TopicSpec where
  device : String
  point : String
  /-- The first instant that counts. -/
  start : Option Millis
  /-- The first instant that counts no more. -/
  stop : Option Millis
  ladder : Ladder
  ordered : inOrder start stop = true
  deriving DecidableEq

/-- The members of a topic document. -/
structure TopicDraft where
  device : String
  point : String
  start : Option WrittenTime
  stop : Option WrittenTime
  rules : List RuleDraft
  deriving DecidableEq, Repr

namespace TopicDraft

/-- The members of a topic document, in the order in which an array lists them. -/
def fields : List Json.Field :=
  [.plain "deviceName", .plain "endpointName", .lax "startTime", .lax "endTime", .lax "rules"]

/-- The drafts of the rules that a document holds. -/
def rulesOfJson? : Json → Option (List RuleDraft)
  | .array items => items.mapM RuleDraft.ofJson?
  | _ => none

/-- The draft that a document holds. -/
def ofJson? (j : Json) : Option TopicDraft :=
  (Json.Record.read? fields j).bind fun r =>
  (r.required? "deviceName" Json.text?).bind fun device =>
  (r.required? "endpointName" Json.text?).bind fun point =>
  (r.optional? "startTime" WrittenTime.ofJson?).bind fun start =>
  (r.optional? "endTime" WrittenTime.ofJson?).bind fun stop =>
  (r.defaulted? "rules" rulesOfJson? []).map fun rules => { device, point, start, stop, rules }

/-- The rules of a list of drafts, the first of which stands at place `index`. -/
def rulesFrom (index : Nat) : List RuleDraft → Except RuleDraft.Flaw (List Rule)
  | [] => .ok []
  | draft :: drafts => do
    let rule ← draft.rule index
    let rules ← rulesFrom (index + 1) drafts
    return rule :: rules

end TopicDraft

namespace TopicSpec

/-- Why a topic cannot be described so. -/
inductive Flaw where
  | malformed
  | emptyDevice
  | time (failure : Failure)
  | rule (flaw : RuleDraft.Flaw)
  | ladder (flaw : Ladder.Flaw)
  | range (start stop : Millis)
  deriving DecidableEq, Repr

/-- The failure that a flaw is answered with. -/
def Flaw.failure : Flaw → Failure
  | .malformed => ⟨.validation, "Malformed topic spec: " ++ Failure.readerRemark⟩
  | .emptyDevice => ⟨.validation, "deviceName must not be empty"⟩
  | .time failure => failure
  | .rule flaw => flaw.failure
  | .ladder flaw => flaw.failure
  | .range start stop => ⟨.validation, s!"startTime {start} must be before endTime {stop}"⟩

/-- A description with a time range. -/
def make (device point : String) (start stop : Option Millis) (ladder : Ladder) :
    Except Flaw TopicSpec :=
  if h : inOrder start stop then .ok ⟨device, point, start, stop, ladder, h⟩
  else .error (.range (start.getD 0) (stop.getD 0))

/-- A description with rules and without a time range. -/
def ofRules (device point : String) (rules : List Rule) : Except Flaw TopicSpec :=
  match Ladder.ofRules rules with
  | .ok ladder => .ok ⟨device, point, none, none, ladder, rfl⟩
  | .error flaw => .error (.ladder flaw)

/-- The same description with another time range. -/
def withRange (s : TopicSpec) (start stop : Option Millis) : Except Flaw TopicSpec :=
  make s.device s.point start stop s.ladder

/-- Whether samples of an instant count. -/
def inRange (s : TopicSpec) (t : Millis) : Bool :=
  s.start.all (fun start => decide (start ≤ t)) && s.stop.all (fun stop => decide (t < stop))

/-- The instant that is written, if one is. -/
def timeOf : Option WrittenTime → Except Flaw (Option Millis)
  | none => .ok none
  | some t => (t.value.map some).mapError .time

/-- The description that a draft means. -/
def ofDraft (d : TopicDraft) : Except Flaw TopicSpec := do
  if (Text.trimmed d.device).isEmpty then .error .emptyDevice
  let start ← timeOf d.start
  let stop ← timeOf d.stop
  let rules ← (TopicDraft.rulesFrom 0 d.rules).mapError .rule
  let ladder ← (Ladder.ofRules rules).mapError .ladder
  make d.device d.point start stop ladder

/-- The description that a document holds. -/
def ofJson (j : Json) : Except Flaw TopicSpec :=
  match TopicDraft.ofJson? j with
  | none => .error .malformed
  | some draft => ofDraft draft

/-- The description that a text holds. -/
def parse (text : String) : Except Flaw TopicSpec :=
  match Json.parse? text with
  | none => .error .malformed
  | some j => ofJson j

end TopicSpec

end TelemetryBands
