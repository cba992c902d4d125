import TelemetryBands.Delivery.Dispatcher
import TelemetryBands.Endpoint
import TelemetryBands.Fault
import TelemetryBands.Settings
import TelemetryBands.Topic.Snapshot
import TelemetryBands.Topic.Spec
import TelemetryBands.Topic.Stats
import TelemetryBands.Window.Aggregator

/-!
# Topics at work

A pipeline is a topic with its state: windows for each rule, the band it is in, the record of its
publications, and its subscribers. A sample goes into the windows of every rule; when the watermark
passes the end of windows they are aggregated, classified, compared with the current band and, if
the repeat policy lets them, published, all in the order of their ends. Faults are not kept here but
handed out with every call.
-/

namespace TelemetryBands

/-- What a call on a topic brings about beside its new state. -/
structure Effect where
  events : List Event
  faults : List Fault

namespace Effect

/-- No effect. -/
def none : Effect :=
  ⟨[], []⟩

/-- One effect after another. -/
def andThen (first second : Effect) : Effect :=
  ⟨first.events ++ second.events, first.faults ++ second.faults⟩

end Effect

/-- A topic with its state. -/
structure Pipeline where
  name : String
  endpoint : Endpoint
  spec : TopicSpec
  /-- The windows of each rule, in the order of the ladder. -/
  aggregators : List Aggregator
  detector : Detector
  suppressor : Suppressor
  dispatcher : Dispatcher
  policy : WatermarkPolicy
  watermark : Option Millis
  /-- The latest time of a sample. -/
  latestSeen : Option Millis
  counts : TopicCounts
  deleted : Bool

namespace Pipeline

/-- A new topic. Its windows start at the beginning of its time range, or else at zero. -/
def new (name : String) (endpoint : Endpoint) (spec : TopicSpec) (settings : Settings) :
    Pipeline where
  name
  endpoint
  spec
  aggregators := spec.ladder.rules.mapIdx fun index rule =>
    Aggregator.new index rule (spec.start.getD 0) settings.maxOpenWindows.toNat
  detector := .initial
  suppressor := .initial
  dispatcher := .initial
  policy := settings.watermark
  watermark := none
  latestSeen := none
  counts := .zero
  deleted := false

/-- The band that a topic is in. -/
def band (p : Pipeline) : Band :=
  p.detector.band

/-- The figures that are shown about a topic. -/
def stats (p : Pipeline) : TopicStats where
  counts := p.counts
  currentState := p.band.state?
  watermark := p.watermark
  subscribers := p.dispatcher.subscribers.length
  openWindows := p.aggregators.foldl (fun n a => n + a.openWindows.size) 0

/-- Adds a subscriber. -/
def subscribe (p : Pipeline) (id : SubscriptionId) (sink : Sink) : Pipeline :=
  { p with dispatcher := p.dispatcher.add id sink }

/-- Lets a subscriber go; tells whether there was one. -/
def unsubscribe (p : Pipeline) (id : SubscriptionId) : Pipeline × Bool :=
  let (dispatcher, found) := p.dispatcher.remove id
  ({ p with dispatcher }, found)

/-- Whether the watermark has reached an instant. -/
def hasReached (p : Pipeline) (t : Millis) : Bool :=
  p.watermark.any fun w => decide (t ≤ w)

/-- The fault of a close that came to no aggregate. -/
def evaluationFault (p : Pipeline) (rule : Rule) (close : WindowClose) (failure : Failure) :
    Fault :=
  ⟨p.name, some rule.state, some close.span.stop, failure⟩

/-- The fault of a rule that has as many windows open as it may. -/
def overflowFault (p : Pipeline) (rule : Rule) : Fault :=
  ⟨p.name, some rule.state, none,
    ⟨.resource, s!"rule for state {rule.state} reached its open window limit"⟩⟩

/-- The text that shows a watermark in a fault. -/
def watermarkText : Option Millis → String
  | none => "None"
  | some w => s!"Some({w})"

/-- The fault of a late sample. -/
def lateFault (p : Pipeline) (t : Millis) : Fault :=
  ⟨p.name, none, none,
    ⟨.lateData, s!"sample @{t} is behind watermark " ++ watermarkText p.watermark⟩⟩

/-- The event of a close that puts the topic into a state or keeps it there. -/
def eventOf (p : Pipeline) (state : UInt32) (kind : EventKind) (aggregate : Aggregate)
    (close : WindowClose) (watermark : Millis) : Event where
  topic := p.name
  state
  value := aggregate.reported
  windowStart := close.span.start
  windowEnd := close.span.stop
  timestamp := watermark
  device := p.endpoint.qualifiedDevice
  point := p.endpoint.point
  kind

/-- The band that an aggregate belongs to: a number is looked up on the ladder, and a share asserts
the state of its own rule or none. -/
def bandOf (p : Pipeline) (rule : Rule) : Aggregate → Band
  | .value x => p.spec.ladder.classify x
  | .share _ true => .state rule.state
  | .share _ false => .unclassified

/-- Publishes the event of a close, or holds it back. -/
def publish (p : Pipeline) (state : UInt32) (candidate : Candidate) (kind : EventKind)
    (aggregate : Aggregate) (close : WindowClose) (watermark : Millis) :
    Pipeline × Option Event :=
  match p.suppressor.consider state candidate (p.spec.ladder.repeatPolicy? state)
      close.span.stop with
  | (suppressor, .suppress) =>
    ({ p with suppressor, counts := { p.counts with suppressed := p.counts.suppressed + 1 } }, none)
  | (suppressor, .deliver) =>
    let event := p.eventOf state kind aggregate close watermark
    ({ p with
        suppressor
        dispatcher := (p.dispatcher.dispatch event).1
        counts := { p.counts with published := p.counts.published + 1 } }, some event)

/-- Takes in the aggregate of a close of a rule. -/
def settle (p : Pipeline) (rule : Rule) (aggregate : Aggregate) (close : WindowClose)
    (watermark : Millis) : Pipeline × Option Event :=
  let (detector, observation) := p.detector.observe (p.bandOf rule aggregate)
  let p :=
    { p with detector, counts := { p.counts with evaluations := p.counts.evaluations + 1 } }
  match observation with
  | .nothing => (p, none)
  | .steady state => p.publish state .repetition .repetition aggregate close watermark
  | .changed _ state => p.publish state .transition .transition aggregate close watermark

/-- Evaluates one close. -/
def evaluate (p : Pipeline) (watermark : Millis) (close : WindowClose) : Pipeline × Effect :=
  match p.spec.ladder.rules[close.ruleIndex]? with
  | none => (p, .none)
  | some rule =>
    match close.aggregate with
    | .error failure =>
      ({ p with counts := { p.counts with faults := p.counts.faults + 1 } },
        ⟨[], [p.evaluationFault rule close failure]⟩)
    | .ok aggregate =>
      let (p, event) := p.settle rule aggregate close watermark
      (p, ⟨event.toList, []⟩)

/-- Evaluates closes in their order. -/
def evaluateAll (p : Pipeline) (watermark : Millis) : List WindowClose → Pipeline × Effect
  | [] => (p, .none)
  | close :: closes =>
    let (next, first) := p.evaluate watermark close
    let (final, rest) := next.evaluateAll watermark closes
    (final, first.andThen rest)

/-- Whether a close comes before another: by the end of the window, then by the place of the
rule. -/
def closesBefore (a b : WindowClose) : Bool :=
  a.span.stop < b.span.stop || (a.span.stop == b.span.stop && a.ruleIndex ≤ b.ruleIndex)

/-- The closes of all rules up to a watermark, in the order in which they are evaluated, with the
windows that stay open. -/
def closeThrough (p : Pipeline) (watermark : Millis) : Pipeline × List WindowClose :=
  let outcomes := p.aggregators.map fun a => a.closeThrough watermark
  ({ p with aggregators := outcomes.map Prod.fst },
    (outcomes.flatMap Prod.snd).mergeSort closesBefore)

/-- Moves the watermark on and evaluates the windows that it passes. A watermark that was reached
before does nothing. -/
def advance (p : Pipeline) (watermark : Millis) : Pipeline × Effect :=
  if p.deleted || p.hasReached watermark then (p, .none)
  else
    let (p, closes) := { p with watermark := some watermark }.closeThrough watermark
    let p := { p with
      counts := { p.counts with windowsClosed := p.counts.windowsClosed + closes.length } }
    p.evaluateAll watermark closes

/-- Offers a sample to the windows of every rule: the windows after it, and what each rule made of
the sample. -/
def offer (p : Pipeline) (s : Sample) : Pipeline × List (Aggregator × Admission) :=
  let outcomes := p.aggregators.map fun a => a.add s.time s.value
  ({ p with aggregators := outcomes.map Prod.fst }, outcomes)

/-- The faults of the rules that had no room for a sample. -/
def overflowFaults (p : Pipeline) (outcomes : List (Aggregator × Admission)) : List Fault :=
  (outcomes.filter fun outcome => 0 < outcome.2.overflowed).map fun outcome =>
    p.overflowFault outcome.1.rule

/-- What became of a sample, by what each rule made of it. -/
def dispositionOf (outcomes : List (Aggregator × Admission)) : Disposition :=
  if outcomes.any fun outcome => 0 < outcome.2.accepted then .accepted
  else if outcomes.any fun outcome => outcome.2.isLate then .late
  else .rejected

/-- Moves the watermark behind a sample, if samples move it. -/
def follow (p : Pipeline) (t : Millis) : Pipeline × Effect :=
  match p.policy with
  | .manual => (p, .none)
  | .eventTime allowedLateness =>
    let latest := (p.latestSeen.map fun seen => seen.later t).getD t
    { p with latestSeen := some latest }.advance (latest.satSub allowedLateness)

/-- Takes a sample in. -/
def ingest (p : Pipeline) (s : Sample) : Pipeline × Disposition × Effect :=
  if p.deleted then (p, .deleted, .none)
  else if !p.spec.inRange s.time then
    ({ p with counts := p.counts.add .outOfRange }, .outOfRange, .none)
  else
    let (p, outcomes) := p.offer s
    let disposition := dispositionOf outcomes
    let overflows := p.overflowFaults outcomes
    let late := if disposition = .late then [p.lateFault s.time] else []
    let counts := p.counts.add disposition
    let p := { p with counts := { counts with faults := counts.faults + overflows.length } }
    let (p, effect) := p.follow s.time
    (p, disposition, Effect.andThen ⟨[], overflows ++ late⟩ effect)

/-- Ends a topic: its windows are dropped and its subscribers let go. -/
def shutDown (p : Pipeline) : Pipeline :=
  { p with
    deleted := true
    aggregators := p.aggregators.map Aggregator.clear
    dispatcher := p.dispatcher.closeAll }

/-- What of a topic survives a restart. -/
def snapshot (p : Pipeline) : Snapshot :=
  ⟨p.detector, p.suppressor, p.watermark⟩

/-- Takes the watermark of a snapshot over, and drops the windows that it passes. -/
def restoreWatermark (p : Pipeline) (watermark : Millis) : Pipeline :=
  let (next, closes) := p.closeThrough watermark
  { next with
    watermark := some watermark
    counts := { p.counts with windowsDiscarded := p.counts.windowsDiscarded + closes.length } }

/-- Takes a snapshot over. -/
def restore (p : Pipeline) (s : Snapshot) : Pipeline :=
  let p := { p with detector := s.detector, suppressor := s.suppressor }
  match s.watermark with
  | none => p
  | some watermark => p.restoreWatermark watermark

/-- The text that keeps a topic. -/
def save (p : Pipeline) : String :=
  p.snapshot.save

/-- Takes over what a text keeps. -/
def load (p : Pipeline) (text : String) : Except Failure Pipeline :=
  (Snapshot.load text).map p.restore

/-- A call on a topic. -/
inductive Call where
  | ingest (s : Sample)
  | advance (watermark : Millis)
  | subscribe (id : SubscriptionId) (sink : Sink)
  | unsubscribe (id : SubscriptionId)
  | load (text : String)
  | shutDown

/-- What a call answers, beside its effect. -/
inductive Reply where
  | disposition (d : Disposition)
  | found (b : Bool)
  | loaded (failure : Option Failure)
  | done
  deriving DecidableEq, Repr

/-- Makes one call. -/
def apply (p : Pipeline) : Call → Pipeline × Reply × Effect
  | .ingest s => let (p, disposition, effect) := p.ingest s; (p, .disposition disposition, effect)
  | .advance watermark => let (p, effect) := p.advance watermark; (p, .done, effect)
  | .subscribe id sink => (p.subscribe id sink, .done, .none)
  | .unsubscribe id => let (p, found) := p.unsubscribe id; (p, .found found, .none)
  | .load text =>
    match p.load text with
    | .ok p => (p, .loaded none, .none)
    | .error failure => (p, .loaded (some failure), .none)
  | .shutDown => (p.shutDown, .done, .none)

/-- Makes a list of calls. -/
def run (p : Pipeline) : List Call → Pipeline × List (Reply × Effect)
  | [] => (p, [])
  | call :: calls =>
    let (next, reply) := p.apply call
    let (final, replies) := next.run calls
    (final, reply :: replies)

end Pipeline

end TelemetryBands
