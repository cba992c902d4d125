import TelemetryBands.Clock.Document
import TelemetryBands.Collections.OrderedMap
import TelemetryBands.Json.Reader
import TelemetryBands.Json.Record
import TelemetryBands.Json.Variant
import TelemetryBands.Json.Writer
import TelemetryBands.Ladder.Rule

/-!
# Suppression of repetitions

Transitions are always published. Windows in which a topic stays in its state are published again
only as far as the rule for that state allows, so a suppressor keeps for every state when and how
often it was published.
-/

namespace TelemetryBands

/-- What is kept about the publications of one state. -/
structure PublicationRecord where
  lastPublished : Option Millis
  /-- The publications since the last transition or since the start of the period. -/
  count : UInt32
  periodStart : Option Millis
  delivered : UInt64
  suppressed : UInt64
  deriving DecidableEq, Repr

/-- What a window asks for. -/
inductive Candidate where
  | transition
  | repetition
  deriving DecidableEq, Repr

/-- Whether an event is published. -/
inductive Decision where
  | deliver
  | suppress
  deriving DecidableEq, Repr

namespace PublicationRecord

/-- The record of a state that was never published. -/
def initial : PublicationRecord :=
  ⟨none, 0, none, 0, 0⟩

instance : Inhabited PublicationRecord := ⟨initial⟩

/-- Whether at least `span` has passed since an instant; since no instant everything has passed. -/
def hasPassed (span : Millis) (since : Option Millis) (now : Millis) : Bool :=
  since.all fun t => decide (span ≤ now.satSub t)

/-- A transition starts the count and the period anew. -/
def enter (r : PublicationRecord) (now : Millis) : PublicationRecord :=
  { r with lastPublished := some now, count := 1, periodStart := some now }

/-- Starts the next period if the current one is over. -/
def startPeriod (r : PublicationRecord) (period : Option Millis) (now : Millis) :
    PublicationRecord :=
  match period with
  | some span =>
    if hasPassed span r.periodStart now then { r with count := 0, periodStart := some now } else r
  | none => r

/-- Decides about a window in which the state persists. -/
def repeated (r : PublicationRecord) (policy : Option RepeatPolicy) (now : Millis) :
    PublicationRecord × Decision :=
  match policy with
  | none => (r, .suppress)
  | some (.duration span) =>
    if hasPassed span r.lastPublished now then ({ r with lastPublished := some now }, .deliver)
    else (r, .suppress)
  | some (.count max period) =>
    let r := r.startPeriod period now
    if r.count < max then
      ({ r with count := r.count + 1, lastPublished := some now }, .deliver)
    else (r, .suppress)

/-- Decides about a candidate. -/
def consider (r : PublicationRecord) (candidate : Candidate) (policy : Option RepeatPolicy)
    (now : Millis) : PublicationRecord × Decision :=
  match candidate with
  | .transition => (r.enter now, .deliver)
  | .repetition => r.repeated policy now

/-- Counts a decision. -/
def tally (r : PublicationRecord) : Decision → PublicationRecord
  | .deliver => { r with delivered := r.delivered + 1 }
  | .suppress => { r with suppressed := r.suppressed + 1 }

end PublicationRecord

/-- The records of the states of a topic. -/
structure Suppressor where
  records : OrderedMap UInt32 PublicationRecord
  deriving DecidableEq, Repr

namespace Suppressor

/-- A suppressor without records. -/
def initial : Suppressor :=
  ⟨.empty⟩

instance : Inhabited Suppressor := ⟨initial⟩

/-- Decides about a candidate for a state at an instant. -/
def consider (s : Suppressor) (state : UInt32) (candidate : Candidate)
    (policy : Option RepeatPolicy) (now : Millis) : Suppressor × Decision :=
  let (record, decision) :=
    ((s.records.find? state).getD .initial).consider candidate policy now
  (⟨s.records.insert state (record.tally decision)⟩, decision)

end Suppressor

namespace PublicationRecord

/-- The fields of a record in a document. -/
def fields : List Json.Field :=
  [.plain "lastPublishTime", .plain "publishCount", .plain "periodStart", .plain "delivered",
   .plain "suppressed"]

/-- A record as a document holds it. -/
def toJson (r : PublicationRecord) : Json :=
  .record
    [("lastPublishTime", .ofOption Millis.toJson r.lastPublished),
     ("publishCount", .ofWord32 r.count),
     ("periodStart", .ofOption Millis.toJson r.periodStart),
     ("delivered", .ofWord64 r.delivered),
     ("suppressed", .ofWord64 r.suppressed)]

/-- The record that a document holds. -/
def ofJson? (j : Json) : Option PublicationRecord :=
  (Json.Record.read? fields j).bind fun r =>
  (r.optional? "lastPublishTime" Millis.ofJson?).bind fun lastPublished =>
  (r.required? "publishCount" Json.word32?).bind fun count =>
  (r.optional? "periodStart" Millis.ofJson?).bind fun periodStart =>
  (r.required? "delivered" Json.word64?).bind fun delivered =>
  (r.required? "suppressed" Json.word64?).map fun suppressed =>
    ⟨lastPublished, count, periodStart, delivered, suppressed⟩

end PublicationRecord

namespace Suppressor

/-- The state that the name of a member denotes: its digits as they stand between the quotes,
without needless zeros. -/
def stateOfName? (name : Quoted) : Option UInt32 :=
  ((Decimal.Numeral.ofChars? name.body).bind fun n => Json.word32? (.number n))

/-- The records that the members of an object hold. -/
def recordsOfMembers? (members : List (Quoted × Json)) :
    Option (List (UInt32 × PublicationRecord)) :=
  members.mapM fun (name, value) =>
    (stateOfName? name).bind fun state =>
      (PublicationRecord.ofJson? value).map fun record => (state, record)

/-- The records that a document holds. -/
def recordsOfJson? : Json → Option (OrderedMap UInt32 PublicationRecord)
  | .object members => (recordsOfMembers? members).map OrderedMap.ofList
  | _ => none

/-- A suppressor as a document holds it. -/
def toJson (s : Suppressor) : Json :=
  .record
    [("states", .record (s.records.entries.map fun entry =>
      (String.ofList (Text.digits entry.1.toNat), entry.2.toJson)))]

/-- The suppressor that a document holds. -/
def ofJson? (j : Json) : Option Suppressor :=
  (Json.Record.read? [.plain "states"] j).bind fun r =>
    (r.required? "states" recordsOfJson?).map fun records => ⟨records⟩

/-- The text that keeps a suppressor. -/
def save (s : Suppressor) : String :=
  s.toJson.compact

/-- The suppressor that a text keeps. -/
def load? (text : String) : Option Suppressor :=
  (Json.parse? text).bind ofJson?

end Suppressor

end TelemetryBands
