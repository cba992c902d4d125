import TelemetryBands.Clock.Document
import TelemetryBands.Delivery.Queue
import TelemetryBands.Endpoint
import TelemetryBands.Json.Reader
import TelemetryBands.Json.Record
import TelemetryBands.Json.Variant
import TelemetryBands.Json.Writer

/-!
# Settings

The settings of a registry of topics. A settings document names any of them; what it leaves out has
its default. Limits must be positive and the allowed lateness must not be negative.
-/

namespace TelemetryBands

/-- What moves the watermark of a topic. -/
inductive WatermarkPolicy where
  /-- Only explicit calls. -/
  | manual
  /-- Every sample moves it to the latest time seen less the allowed lateness. -/
  | eventTime (allowedLateness : Millis)
  deriving DecidableEq, Repr

/-- How often the clock ticks, and how far the watermark stays behind it. -/
structure TickSettings where
  tick : UInt64
  grace : Millis
  deriving DecidableEq, Repr

/-- The settings of a registry. -/
structure Settings where
  scope : Scope
  maxTopics : UInt64
  maxOpenWindows : UInt64
  queueCapacity : UInt64
  overflow : OverflowPolicy
  watermark : WatermarkPolicy
  clock : TickSettings
  faultCapacity : UInt64
  deriving DecidableEq, Repr

/-- One tick each second, without grace. -/
def TickSettings.standard : TickSettings :=
  ⟨1000, 0⟩

/-- The scope that a document holds. -/
def Scope.ofJson? (j : Json) : Option Scope :=
  (Json.Record.read? [.plain "tenant", .plain "portal"] j).bind fun r =>
  (r.optional? "tenant" Json.text?).bind fun tenant =>
  (r.optional? "portal" Json.text?).map fun portal => { tenant, portal }

/-- A scope as a document holds it. -/
def Scope.toJson (s : Scope) : Json :=
  .record [("tenant", .ofOption .ofText s.tenant), ("portal", .ofOption .ofText s.portal)]

/-- The name of an overflow policy. -/
def OverflowPolicy.name : OverflowPolicy → String
  | .dropOldest => "dropOldest"
  | .dropNewest => "dropNewest"

/-- The overflow policy of a name. -/
def OverflowPolicy.ofName? : String → Option OverflowPolicy
  | "dropOldest" => some .dropOldest
  | "dropNewest" => some .dropNewest
  | _ => none

namespace WatermarkPolicy

/-- The policy of the mode `eventTime` with the given members beside the mode. -/
def eventTimeOfMembers? (members : List (Quoted × Json)) : Option WatermarkPolicy :=
  (Json.Record.ofMembers? [.plain "allowedLatenessMs"] members).bind fun r =>
    (r.required? "allowedLatenessMs" Millis.ofJson?).map .eventTime

/-- The policy of the members of an object: the mode stands once, at any place. -/
def ofMembers? (members : List (Quoted × Json)) : Option WatermarkPolicy :=
  (Json.Record.ofMembers? [.plain "mode"] members).bind fun r =>
  (r.required? "mode" Json.text?).bind fun mode =>
    match mode with
    | "manual" => some .manual
    | "eventTime" => eventTimeOfMembers? members
    | _ => none

/-- The policy of the items of an array: the mode, and behind it the lateness if the mode has
one. -/
def ofItems? : List Json → Option WatermarkPolicy
  | [mode] => if mode.text? = some "manual" then some .manual else none
  | [mode, lateness] =>
    if mode.text? = some "eventTime" then (Millis.ofJson? lateness).map .eventTime else none
  | _ => none

/-- The containers that may stand inside each other in a policy, which itself stands in another. -/
def room : Nat := Json.depthLimit - 1

/-- The policy that a document holds. -/
def ofJson? (j : Json) : Option WatermarkPolicy :=
  if j.isSound room then
    match j with
    | .object members => ofMembers? members
    | .array items => ofItems? items
    | _ => none
  else none

/-- A policy as a document holds it. -/
def toJson : WatermarkPolicy → Json
  | .manual => .record [("mode", .ofText "manual")]
  | .eventTime lateness =>
    .record [("mode", .ofText "eventTime"), ("allowedLatenessMs", lateness.toJson)]

end WatermarkPolicy

namespace TickSettings

/-- The tick settings that a document holds. -/
def ofJson? (j : Json) : Option TickSettings :=
  (Json.Record.read? [.lax "tickMs", .lax "graceMs"] j).bind fun r =>
  (r.defaulted? "tickMs" Json.word64? standard.tick).bind fun tick =>
  (r.defaulted? "graceMs" Millis.ofJson? standard.grace).map fun grace => ⟨tick, grace⟩

/-- Tick settings as a document holds them. -/
def toJson (c : TickSettings) : Json :=
  .record [("tickMs", .ofWord64 c.tick), ("graceMs", c.grace.toJson)]

end TickSettings

namespace Settings

/-- The settings of an empty document. -/
def standard : Settings where
  scope := {}
  maxTopics := 1024
  maxOpenWindows := 1024
  queueCapacity := 1024
  overflow := .dropOldest
  watermark := .manual
  clock := .standard
  faultCapacity := 256

instance : Inhabited Settings := ⟨standard⟩

/-- Why settings are refused. -/
inductive Flaw where
  | notPositive (name : String)
  | negativeLateness
  deriving DecidableEq, Repr

/-- The text of a flaw. -/
def Flaw.text : Flaw → String
  | .notPositive name => s!"{name} must be positive"
  | .negativeLateness => "watermark.allowedLatenessMs must not be negative"

/-- The failure that a flaw is answered with. -/
def Flaw.failure (flaw : Flaw) : Failure :=
  ⟨.validation, flaw.text⟩

/-- The values that must be positive, with their names, in the order in which they are checked. -/
def limits (s : Settings) : List (String × UInt64) :=
  [("maxTopics", s.maxTopics), ("maxOpenWindowsPerRule", s.maxOpenWindows),
   ("subscriberQueueCapacity", s.queueCapacity), ("faultChannelCapacity", s.faultCapacity),
   ("clock.tickMs", s.clock.tick)]

/-- What is wrong with the watermark, if anything. -/
def watermarkFlaw? (s : Settings) : Option Flaw :=
  match s.watermark with
  | .manual => none
  | .eventTime lateness => if lateness < 0 then some .negativeLateness else none

/-- The first thing that is wrong with settings, if anything. -/
def flaw? (s : Settings) : Option Flaw :=
  (s.limits.find? fun limit => limit.2 == 0).map (fun limit => .notPositive limit.1)
    <|> s.watermarkFlaw?

/-- The members of a settings document, in the order in which an array lists them. -/
def fields : List Json.Field :=
  [.lax "scope", .lax "maxTopics", .lax "maxOpenWindowsPerRule", .lax "subscriberQueueCapacity",
   .lax "overflowPolicy", .lax "watermark", .lax "clock", .lax "faultChannelCapacity"]

/-- The settings that a document holds. -/
def ofJson? (j : Json) : Option Settings :=
  (Json.Record.read? fields j).bind fun r =>
  (r.defaulted? "scope" Scope.ofJson? standard.scope).bind fun scope =>
  (r.defaulted? "maxTopics" Json.word64? standard.maxTopics).bind fun maxTopics =>
  (r.defaulted? "maxOpenWindowsPerRule" Json.word64? standard.maxOpenWindows).bind
    fun maxOpenWindows =>
  (r.defaulted? "subscriberQueueCapacity" Json.word64? standard.queueCapacity).bind
    fun queueCapacity =>
  (r.defaulted? "overflowPolicy" (fun j => j.plainVariant?.bind OverflowPolicy.ofName?)
    standard.overflow).bind fun overflow =>
  (r.defaulted? "watermark" WatermarkPolicy.ofJson? standard.watermark).bind fun watermark =>
  (r.defaulted? "clock" TickSettings.ofJson? standard.clock).bind fun clock =>
  (r.defaulted? "faultChannelCapacity" Json.word64? standard.faultCapacity).map
    fun faultCapacity =>
      { scope, maxTopics, maxOpenWindows, queueCapacity, overflow, watermark, clock, faultCapacity }

/-- Settings as a document holds them. -/
def toJson (s : Settings) : Json :=
  .record
    [("scope", s.scope.toJson),
     ("maxTopics", .ofWord64 s.maxTopics),
     ("maxOpenWindowsPerRule", .ofWord64 s.maxOpenWindows),
     ("subscriberQueueCapacity", .ofWord64 s.queueCapacity),
     ("overflowPolicy", .ofText s.overflow.name),
     ("watermark", s.watermark.toJson),
     ("clock", s.clock.toJson),
     ("faultChannelCapacity", .ofWord64 s.faultCapacity)]

/-- The settings that a text describes. -/
def parse (text : String) : Except Failure Settings :=
  match (Json.parse? text).bind ofJson? with
  | none => .error .unreadableDocument
  | some s =>
    match s.flaw? with
    | none => .ok s
    | some flaw => .error flaw.failure

/-- The text that describes settings. -/
def render (s : Settings) : String :=
  s.toJson.pretty

end Settings

end TelemetryBands
