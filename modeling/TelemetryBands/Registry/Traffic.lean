import TelemetryBands.Feed
import TelemetryBands.Registry.Subscriptions

/-!
# Samples and watermarks in a registry

A sample goes to every topic that watches its endpoint. A watermark is meant for one topic, for the
topics of one endpoint or for all topics. The faults of all topics come together on one channel.
-/

namespace TelemetryBands

/-- What became of a sample in the topics of its endpoint. -/
structure IngestReport where
  /-- The number of topics that watch the endpoint. -/
  topics : Nat
  dispositions : List Disposition
  published : List Event
  deriving DecidableEq, Repr

/-- How often a disposition occurs. -/
def IngestReport.count (report : IngestReport) (d : Disposition) : Nat :=
  report.dispositions.count d

/-- What became of a feed. -/
structure DrainReport where
  samples : Nat
  watermarks : Nat
  /-- Samples of endpoints that no topic watches. -/
  unrouted : Nat
  late : Nat
  outOfRange : Nat
  published : List Event
  deriving DecidableEq, Repr

/-- The report of an empty feed. -/
def DrainReport.zero : DrainReport :=
  ⟨0, 0, 0, 0, 0, []⟩

namespace Registry

variable {α : Type}

/-- Lets the topic of a name do something, and reports its faults. -/
def work (r : Registry) (name : String) (f : Pipeline → Pipeline × α × Effect) :
    Registry × Option (α × List Event) :=
  match r.topic? name with
  | none => (r, none)
  | some p =>
    let (p, answer, effect) := f p
    let r := r.putTopic p
    ({ r with faults := r.faults.reportAll effect.faults }, some (answer, effect.events))

/-- Lets the topics of some names do something, one after the other. -/
def workAll (r : Registry) (f : Pipeline → Pipeline × α × Effect) :
    List String → Registry × List (α × List Event)
  | [] => (r, [])
  | name :: names =>
    let (next, answer) := r.work name f
    let (final, answers) := next.workAll f names
    (final, answer.toList ++ answers)

/-- The names of the topics that watch an endpoint. -/
def route (r : Registry) (endpoint : Endpoint) : List String :=
  ((r.routes.find? fun route => route.endpoint == endpoint).map Route.names).getD []

/-- Offers a sample to the topics of an endpoint. -/
def ingestAt (r : Registry) (endpoint : Endpoint) (s : Sample) : Registry × IngestReport :=
  let (r, answers) := r.workAll (fun p => p.ingest s) (r.route endpoint)
  (r, ⟨answers.length, answers.map Prod.fst, answers.flatMap Prod.snd⟩)

/-- The endpoint that two names mean in the scope of the registry. -/
def endpointOf (r : Registry) (device point : String) : Except Failure Endpoint :=
  (Endpoint.resolve r.settings.scope device point).mapError Endpoint.Flaw.failure

/-- Offers a sample to the topics of the endpoint of two names. -/
def ingest (r : Registry) (device point : String) (s : Sample) :
    Registry × Except Failure IngestReport :=
  match r.endpointOf device point with
  | .error failure => (r, .error failure)
  | .ok endpoint => let (r, report) := r.ingestAt endpoint s; (r, .ok report)

/-- Moves the watermark of topics on. -/
def advanceTopics (r : Registry) (watermark : Millis) (names : List String) :
    Registry × List Event :=
  let (r, answers) := r.workAll
    (fun p => let (p, effect) := p.advance watermark; (p, (), effect)) names
  (r, answers.flatMap Prod.snd)

/-- Moves the watermark of the topics of an endpoint on. -/
def advance (r : Registry) (device point : String) (watermark : Millis) :
    Registry × Except Failure (List Event) :=
  match r.endpointOf device point with
  | .error failure => (r, .error failure)
  | .ok endpoint =>
    let (r, events) := r.advanceTopics watermark (r.route endpoint)
    (r, .ok events)

/-- Moves the watermark of one topic on. -/
def advanceTopic (r : Registry) (name : String) (watermark : Millis) :
    Registry × Except Failure (List Event) :=
  match r.topic name with
  | .error failure => (r, .error failure)
  | .ok _ => let (r, events) := r.advanceTopics watermark [name]; (r, .ok events)

/-- Moves the watermark of all topics on, in the order of their names. -/
def advanceAll (r : Registry) (watermark : Millis) : Registry × List Event :=
  r.advanceTopics watermark r.names

/-- The failure of a watermark that names half an endpoint. -/
def halfTarget : Failure :=
  ⟨.validation, "a targeted watermark needs both device and endpoint"⟩

/-- Moves the watermark that a feed names on. -/
def advanceTarget (r : Registry) (device point : Option String) (watermark : Millis) :
    Registry × Except Failure (List Event) :=
  match device, point with
  | some device, some point => r.advance device point watermark
  | none, none => let (r, events) := r.advanceAll watermark; (r, .ok events)
  | _, _ => (r, .error halfTarget)

/-- Takes in one item of a feed. -/
def feed (r : Registry) (report : DrainReport) (item : FeedItem) :
    Registry × Except Failure DrainReport :=
  match item with
  | .sample device point s =>
    match r.ingest device point s with
    | (r, .error failure) => (r, .error failure)
    | (r, .ok outcome) =>
      (r, .ok { report with
        samples := report.samples + 1
        unrouted := report.unrouted + if outcome.topics = 0 then 1 else 0
        late := report.late + outcome.count .late
        outOfRange := report.outOfRange + outcome.count .outOfRange
        published := report.published ++ outcome.published })
  | .watermark device point t =>
    match r.advanceTarget device point t with
    | (r, .error failure) => (r, .error failure)
    | (r, .ok events) =>
      (r, .ok { report with
        watermarks := report.watermarks + 1
        published := report.published ++ events })

/-- Takes in items after those that a report counts; the first failure ends it. -/
def drainFrom (r : Registry) (report : DrainReport) :
    List (Except Failure FeedItem) → Registry × Except Failure DrainReport
  | [] => (r, .ok report)
  | .error failure :: _ => (r, .error failure)
  | .ok item :: items =>
    match r.feed report item with
    | (r, .error failure) => (r, .error failure)
    | (r, .ok report) => r.drainFrom report items

/-- Takes in the items of a feed up to the first failure. -/
def drain (r : Registry) (items : List (Except Failure FeedItem)) :
    Registry × Except Failure DrainReport :=
  r.drainFrom .zero items

/-- The figures that are shown about a topic. -/
def stats (r : Registry) (name : String) : Except Failure TopicStats :=
  (r.topic name).map Pipeline.stats

/-- The text that keeps a topic. -/
def save (r : Registry) (name : String) : Except Failure String :=
  (r.topic name).map Pipeline.save

/-- Lets a topic take over what a text keeps. -/
def load (r : Registry) (name text : String) : Registry × Except Failure Unit :=
  match (r.topic name).bind fun p => p.load text with
  | .error failure => (r, .error failure)
  | .ok p => (r.putTopic p, .ok ())

/-- Takes all pending faults. -/
def drainFaults (r : Registry) : Registry × List Fault :=
  let (faults, pending) := r.faults.drain
  ({ r with faults }, pending)

end Registry

end TelemetryBands
