import TelemetryBands.Registry.Basic

/-!
# Subscriptions of a registry

A subscription hands the events of one topic to a sink: a queue of the registry, from which they are
read one by one, or a sink of the subscriber's own.
-/

namespace TelemetryBands.Registry

/-- Puts a topic in the place of the one with its name. -/
def putTopic (r : Registry) (p : Pipeline) : Registry :=
  { r with topics := r.topics.map fun q => if q.name == p.name then p else q }

/-- The failure of a subscription that is not there. -/
def noSubscription (id : SubscriptionId) : Failure :=
  ⟨.notFound, "subscription " ++ id.text⟩

/-- The failure of reading from a subscription without a queue. -/
def notQueued (id : SubscriptionId) : Failure :=
  ⟨.validation, "subscription " ++ id.text ++ " delivers to a sink, not a queue"⟩

/-- Subscribes a sink to a topic. -/
def attach (r : Registry) (topic : String) (sink : Sink) (queued : Bool) :
    Registry × Except Failure Subscription :=
  match r.topic topic with
  | .error failure => (r, .error failure)
  | .ok p =>
    let subscription : Subscription := ⟨.issue r.issued, topic, queued⟩
    let r := r.putTopic (p.subscribe subscription.id sink)
    ({ r with
        subscriptions := r.subscriptions ++ [subscription]
        issued := r.issued + 1 }, .ok subscription)

/-- Subscribes to a topic with a queue of the registry. -/
def subscribe (r : Registry) (topic : String) : Registry × Except Failure Subscription :=
  r.attach topic (.queue (.new r.settings.queueCapacity.toNat r.settings.overflow)) true

/-- Subscribes a sink of one's own to a topic. -/
def subscribeSink (r : Registry) (topic : String) (sink : Sink) :
    Registry × Except Failure Subscription :=
  r.attach topic sink false

/-- The subscription of an identifier. -/
def subscription? (r : Registry) (id : SubscriptionId) : Option Subscription :=
  r.subscriptions.find? fun s => s.id == id

/-- Ends a subscription. -/
def unsubscribe (r : Registry) (id : SubscriptionId) : Registry × Except Failure Unit :=
  match r.subscription? id with
  | none => (r, .error (noSubscription id))
  | some s =>
    let r := { r with subscriptions := r.subscriptions.filter fun s => s.id != id }
    match r.topic? s.topic with
    | none => (r, .ok ())
    | some p => (r.putTopic (p.unsubscribe id).1, .ok ())

/-- The topic, the subscriber and the queue of a subscription that has one. -/
def queueOf (r : Registry) (id : SubscriptionId) :
    Except Failure (Pipeline × Subscriber × Queue) :=
  match r.subscription? id with
  | none => .error (noSubscription id)
  | some s =>
    if s.queued then
      match r.topic? s.topic with
      | none => .error (noSubscription id)
      | some p =>
        match p.dispatcher.find? id with
        | none => .error (noSubscription id)
        | some subscriber =>
          match subscriber.sink.queue? with
          | none => .error (notQueued id)
          | some q => .ok (p, subscriber, q)
    else .error (notQueued id)

/-- Puts a queue in the place of that of a subscriber. -/
def putQueue (r : Registry) (p : Pipeline) (s : Subscriber) (q : Queue) : Registry :=
  r.putTopic { p with dispatcher := p.dispatcher.changeSink s.serial (.queue q) }

/-- Takes the oldest event of a subscription; without one, the wait ends without a message. -/
def next (r : Registry) (id : SubscriptionId) : Registry × Except Failure Event :=
  match r.queueOf id with
  | .error failure => (r, .error failure)
  | .ok (p, s, q) =>
    let (rest, answer) := q.pop
    (r.putQueue p s rest, answer)

/-- Takes the oldest event of a subscription, if there is one. -/
def tryNext (r : Registry) (id : SubscriptionId) : Registry × Except Failure (Option Event) :=
  match r.queueOf id with
  | .error failure => (r, .error failure)
  | .ok (p, s, q) =>
    let (rest, answer) := q.tryPop
    (r.putQueue p s rest, answer)

/-- The subscriber of an identifier, whether it still gets events or not. -/
def subscriber? (r : Registry) (id : SubscriptionId) : Option Subscriber :=
  ((r.topics.flatMap fun p => p.dispatcher.everyone) ++ r.retired).find? fun s => s.id == id

end TelemetryBands.Registry
