import TelemetryBands.Registry.Traffic

/-!
# Calls on a registry

Everything that can be asked of a registry as one type of calls with one type of answers, so that
the history of a registry is a list of calls. A call fails with its failure or has its answer.
-/

namespace TelemetryBands.Registry

/-- A call on a registry. -/
inductive Call where
  | create (name text : String)
  | createFrom (name : String) (spec : TopicSpec)
  | delete (name : String)
  | cleanUp
  | names
  | key (name : String)
  | subscribe (topic : String)
  | subscribeSink (topic : String) (sink : Sink)
  | unsubscribe (id : SubscriptionId)
  | next (id : SubscriptionId)
  | tryNext (id : SubscriptionId)
  | ingest (device point : String) (s : Sample)
  | advance (device point : String) (watermark : Millis)
  | advanceTopic (name : String) (watermark : Millis)
  | advanceAll (watermark : Millis)
  | drain (items : List (Except Failure FeedItem))
  | stats (name : String)
  | save (name : String)
  | load (name text : String)
  | drainFaults

/-- What a call answers. -/
inductive Answer where
  | nothing
  | count (n : Nat)
  | names (l : List String)
  | key (k : TopicKey)
  | subscription (s : Subscription)
  | event (e : Option Event)
  | events (l : List Event)
  | ingested (report : IngestReport)
  | drained (report : DrainReport)
  | stats (s : TopicStats)
  | text (s : String)
  | faults (l : List Fault)

/-- Makes one call. -/
def apply (r : Registry) : Call → Registry × Except Failure Answer
  | .create name text => let (r, answer) := r.create name text; (r, answer.map .key)
  | .createFrom name spec => let (r, answer) := r.createFrom name spec; (r, answer.map .key)
  | .delete name => let (r, answer) := r.delete name; (r, answer.map fun _ => .nothing)
  | .cleanUp => let (r, n) := r.cleanUp; (r, .ok (.count n))
  | .names => (r, .ok (.names r.names))
  | .key name => (r, (r.key name).map .key)
  | .subscribe topic => let (r, answer) := r.subscribe topic; (r, answer.map .subscription)
  | .subscribeSink topic sink =>
    let (r, answer) := r.subscribeSink topic sink; (r, answer.map .subscription)
  | .unsubscribe id => let (r, answer) := r.unsubscribe id; (r, answer.map fun _ => .nothing)
  | .next id => let (r, answer) := r.next id; (r, answer.map fun e => .event (some e))
  | .tryNext id => let (r, answer) := r.tryNext id; (r, answer.map .event)
  | .ingest device point s =>
    let (r, answer) := r.ingest device point s; (r, answer.map .ingested)
  | .advance device point watermark =>
    let (r, answer) := r.advance device point watermark; (r, answer.map .events)
  | .advanceTopic name watermark =>
    let (r, answer) := r.advanceTopic name watermark; (r, answer.map .events)
  | .advanceAll watermark => let (r, events) := r.advanceAll watermark; (r, .ok (.events events))
  | .drain items => let (r, answer) := r.drain items; (r, answer.map .drained)
  | .stats name => (r, (r.stats name).map .stats)
  | .save name => (r, (r.save name).map .text)
  | .load name text => let (r, answer) := r.load name text; (r, answer.map fun _ => .nothing)
  | .drainFaults => let (r, faults) := r.drainFaults; (r, .ok (.faults faults))

/-- Makes a list of calls. -/
def run (r : Registry) : List Call → Registry × List (Except Failure Answer)
  | [] => (r, [])
  | call :: calls =>
    let (next, answer) := r.apply call
    let (final, answers) := next.run calls
    (final, answer :: answers)

end TelemetryBands.Registry
