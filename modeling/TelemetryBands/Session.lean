import TelemetryBands.Message
import TelemetryBands.Registry.Traffic
import TelemetryBands.Release

/-!
# Sessions over bytes

A session serves callers that pass byte strings and get status numbers. It holds at most one
registry with a table of the subscriptions that were handed out, and the text and the number of the
last failure. Whoever asks for another registry gives up the one it holds beforehand, so it is left
without any if the settings are refused. A registry that is made later issues other identifiers than
those before it, so what a caller still holds of an earlier one names nothing. An argument may be
missing; one whose bytes are no text is taken as missing. A text is handed out up to its end, which
is marked by a zero character, so one that has such a character itself is not handed out.
`Session.apply` makes one call.
-/

namespace TelemetryBands

/-- A byte string that a caller passes, unless it passes none. -/
abbrev Argument := Option (List UInt8)

/-- The text of an argument. -/
def Argument.text? (a : Argument) : Option String :=
  a.bind Feed.textOf?

/-- A registry with the subscriptions that were handed out. -/
structure Handle where
  registry : Registry
  subscriptions : List Subscription

/-- What a caller holds between calls. -/
structure Session where
  handle : Option Handle
  /-- The number of identifiers that the registries given up so far have issued. -/
  spent : Nat
  /-- The text of the last failure. -/
  lastError : Option String
  /-- The number of the last failure, zero if there was none. -/
  lastCode : Nat

/-- What a call returns. -/
inductive Returned where
  /-- A count or zero, or minus one after a failure. -/
  | status (n : Int)
  /-- A text, or none after a failure. -/
  | text (s : Option String)
  /-- Whether there is a registry now. -/
  | created (b : Bool)
  | nothing
  deriving DecidableEq, Repr

/-- Whether a returned value tells of a failure. -/
def Returned.isFailure : Returned → Bool
  | .status n => n < 0
  | .text s => s.isNone
  | .created b => !b
  | .nothing => false

namespace Handle

/-- A handle on a new registry, which issues its identifiers after `issued` others. -/
def new (settings : Settings) (issued : Nat) : Handle :=
  ⟨{ Registry.new settings (fun _ => true) with issued }, []⟩

/-- The failure of a text that is no identifier. -/
def notAnId : Failure :=
  ⟨.validation, "Invalid subscription id: " ++ Failure.readerRemark⟩

/-- The subscription that a text names. -/
def subscription (h : Handle) (text : String) : Except Failure Subscription :=
  match SubscriptionId.ofText? text with
  | none => .error notAnId
  | some id =>
    match h.subscriptions.find? fun s => s.id == id with
    | some s => .ok s
    | none => .error (Registry.noSubscription id)

/-- Creates a topic. -/
def create (h : Handle) (name text : String) : Handle × Except Failure Int :=
  let (registry, answer) := h.registry.create name text
  ({ h with registry }, answer.map fun _ => 0)

/-- Deletes a topic. -/
def delete (h : Handle) (name : String) : Handle × Except Failure Int :=
  match h.registry.delete name with
  | (registry, .ok ()) =>
    (⟨registry, h.subscriptions.filter fun s => s.topic != name⟩, .ok 0)
  | (registry, .error failure) => ({ h with registry }, .error failure)

/-- The greatest number that a status can be. -/
def greatestStatus : Nat := 2147483647

/-- A count as a status. -/
def status (n : Nat) : Int :=
  min n greatestStatus

/-- Deletes all topics. -/
def cleanUp (h : Handle) : Handle × Except Failure Int :=
  let (registry, n) := h.registry.cleanUp
  (⟨registry, []⟩, .ok (status n))

/-- Subscribes to a topic and answers with the text of the identifier. -/
def subscribe (h : Handle) (topic : String) : Handle × Except Failure String :=
  match h.registry.subscribe topic with
  | (registry, .ok s) => (⟨registry, h.subscriptions ++ [s]⟩, .ok s.id.text)
  | (registry, .error failure) => ({ h with registry }, .error failure)

/-- Ends a subscription. -/
def unsubscribe (h : Handle) (text : String) : Handle × Except Failure Int :=
  match h.subscription text with
  | .error failure => (h, .error failure)
  | .ok s =>
    match h.registry.unsubscribe s.id with
    | (registry, .ok ()) => (⟨registry, h.subscriptions.filter fun t => t.id != s.id⟩, .ok 0)
    | (registry, .error failure) => ({ h with registry }, .error failure)

/-- The text of the next message of a subscription. -/
def next (h : Handle) (text : String) : Handle × Except Failure String :=
  match h.subscription text with
  | .error failure => (h, .error failure)
  | .ok s =>
    let (registry, answer) := h.registry.next s.id
    ({ h with registry }, answer.map fun e => (Message.ofEvent e).encode)

/-- Offers a number to the topics of an endpoint and answers how many took it. -/
def ingest (h : Handle) (device point : String) (t : Millis) (x : Float) :
    Handle × Except Failure Int :=
  let (registry, answer) := h.registry.ingest device point ⟨t, .number x⟩
  ({ h with registry }, answer.map fun report => status (report.count .accepted))

/-- The failure of naming half an endpoint. -/
def halfTarget : Failure :=
  ⟨.validation, "device and endpoint must both be set or both be NULL"⟩

/-- Moves the watermark of an endpoint or of all topics on, and answers how many events there
were. -/
def advance (h : Handle) (device point : Option String) (watermark : Millis) :
    Handle × Except Failure Int :=
  match device, point with
  | some device, some point =>
    let (registry, answer) := h.registry.advance device point watermark
    ({ h with registry }, answer.map fun events => status events.length)
  | none, none =>
    let (registry, events) := h.registry.advanceAll watermark
    ({ h with registry }, .ok (status events.length))
  | _, _ => (h, .error halfTarget)

end Handle

namespace Session

/-- A session without a registry. -/
def initial : Session :=
  ⟨none, 0, none, 0⟩

instance : Inhabited Session := ⟨initial⟩

/-- The number of identifiers that the registries of a session have issued. -/
def issued (s : Session) : Nat :=
  match s.handle with
  | some h => h.registry.issued
  | none => s.spent

/-- Gives the registry up. -/
def released (s : Session) : Session :=
  { s with handle := none, spent := s.issued }

/-- Forgets the last failure. -/
def cleared (s : Session) : Session :=
  { s with lastError := none, lastCode := 0 }

/-- A text as it is handed out, if it can be. -/
def handedOut? (text : String) : Option String :=
  if text.toList.contains (Char.ofNat 0) then none else some text

/-- Remembers a failure. -/
def failed (s : Session) (failure : Failure) : Session :=
  { s with
    lastError := handedOut? failure.message
    lastCode := failure.code }

/-- The failure of a call without a registry. -/
def noRegistry : Failure :=
  ⟨.validation, "Null registry pointer"⟩

/-- The failure of a call without an argument that it needs. -/
def missing (argument : String) : Failure :=
  ⟨.validation, s!"Invalid {argument} string pointer"⟩

/-- The text of an argument that a call needs. -/
def required (a : Argument) (name : String) : Except Failure String :=
  match a.text? with
  | some text => .ok text
  | none => .error (missing name)

/-- A call on the registry of a session. -/
inductive Request where
  | create (name text : Argument)
  | delete (name : Argument)
  | cleanUp
  | subscribe (topic : Argument)
  | unsubscribe (id : Argument)
  | next (id : Argument)
  | ingest (device point : Argument) (t : Millis) (x : Float)
  | advance (device point : Argument) (watermark : Millis)

/-- A call of a session. -/
inductive Call where
  /-- Gives up the registry there is and makes another one with the settings of a document, or
  without an argument the standard ones. -/
  | new (config : Argument)
  /-- Gives the registry up. -/
  | free
  | version
  /-- Asks something of the registry, if the caller passes it. -/
  | ask (passed : Bool) (request : Request)

/-- Whether the answer to a request is a text. -/
def Request.answersText : Request → Bool
  | .subscribe _ | .next _ => true
  | _ => false

/-- What a request returns after a failure. -/
def Request.onFailure (r : Request) : Returned :=
  if r.answersText then .text none else .status (-1)

variable {α : Type}

/-- Answers with a number. -/
def counting (outcome : Handle × Except Failure Int) : Handle × Except Failure Returned :=
  (outcome.1, outcome.2.map .status)

/-- Answers with a text, or with none and no failure if the text cannot be handed out. -/
def telling (outcome : Handle × Except Failure String) : Handle × Except Failure Returned :=
  (outcome.1, outcome.2.map fun text => .text (handedOut? text))

/-- Does something with a handle, unless there is a failure already. -/
def given (h : Handle) (a : Except Failure α) (f : α → Handle × Except Failure Returned) :
    Handle × Except Failure Returned :=
  match a with
  | .error failure => (h, .error failure)
  | .ok a => f a

/-- Answers a request. -/
def serve (h : Handle) : Request → Handle × Except Failure Returned
  | .create name text =>
    given h (required name "name") fun name =>
    given h (required text "spec") fun text => counting (h.create name text)
  | .delete name => given h (required name "name") fun name => counting (h.delete name)
  | .cleanUp => counting h.cleanUp
  | .subscribe topic =>
    given h (required topic "topic") fun topic => telling (h.subscribe topic)
  | .unsubscribe id =>
    given h (required id "subscription id") fun id => counting (h.unsubscribe id)
  | .next id => given h (required id "subscription id") fun id => telling (h.next id)
  | .ingest device point t x =>
    given h (required device "device") fun device =>
    given h (required point "endpoint") fun point => counting (h.ingest device point t x)
  | .advance device point watermark =>
    counting (h.advance device.text? point.text? watermark)

/-- The settings of an argument; without one the standard settings. -/
def settingsOf (config : Argument) : Except Failure Settings :=
  match config.text? with
  | none => .ok .standard
  | some text => Settings.parse text

/-- Asks something of the registry, if there is one. -/
def ask (s : Session) (passed : Bool) (request : Request) : Session × Returned :=
  match s.handle with
  | none => (s.cleared.failed noRegistry, request.onFailure)
  | some h =>
    if !passed then (s.cleared.failed noRegistry, request.onFailure)
    else
      match serve h request with
      | (h, .ok returned) => ({ s.cleared with handle := some h }, returned)
      | (h, .error failure) =>
        ({ s.cleared with handle := some h }.failed failure, request.onFailure)

/-- Makes one call. The registry there was is given up whether or not another one can be made. -/
def apply (s : Session) : Call → Session × Returned
  | .new config =>
    match settingsOf config with
    | .ok settings =>
      ({ s.released.cleared with handle := some (.new settings s.issued) }, .created true)
    | .error failure => (s.released.cleared.failed failure, .created false)
  | .free => (s.released, .nothing)
  | .version => (s, .text (some Release.version))
  | .ask passed request => s.ask passed request

/-- Makes a list of calls. -/
def run (s : Session) : List Call → Session × List Returned
  | [] => (s, [])
  | call :: calls =>
    let (next, returned) := s.apply call
    let (final, rest) := next.run calls
    (final, returned :: rest)

end Session

end TelemetryBands
