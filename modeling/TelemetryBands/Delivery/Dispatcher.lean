import TelemetryBands.Delivery.Queue
import TelemetryBands.Delivery.SubscriptionId

/-!
# Dispatch to subscribers

A dispatcher hands every event to its subscribers in the order in which they came. A subscriber that
fails is counted and does not keep the others from their events. Subscribers that have left are kept
apart: they get nothing more, but what they got can still be looked at.
-/

namespace TelemetryBands

/-- Where the events of a subscriber go. -/
inductive Sink where
  | queue (q : Queue)
  /-- A receiver that fails for some events. -/
  | receiver (fails : Event → Bool)

/-- A subscriber of a topic. -/
structure Subscriber where
  id : SubscriptionId
  /-- The number of subscribers that came before. -/
  serial : Nat
  sink : Sink
  /-- All events that were handed over, the oldest first. -/
  offered : List Event
  failures : Nat
  /-- How often the sink was closed. -/
  closes : Nat

/-- How many subscribers got an event, and how many failed. -/
structure DispatchReport where
  delivered : Nat
  failed : Nat
  deriving DecidableEq, Repr

namespace Sink

/-- Hands an event to a sink, and tells whether it took it. -/
def deliver (sink : Sink) (e : Event) : Sink × Bool :=
  match sink with
  | .queue q =>
    match q.push e with
    | .ok q => (.queue q, true)
    | .error _ => (.queue q, false)
  | .receiver fails => (.receiver fails, !fails e)

/-- Closes a sink. -/
def close : Sink → Sink
  | .queue q => .queue q.close
  | .receiver fails => .receiver fails

/-- The queue of a sink that is one. -/
def queue? : Sink → Option Queue
  | .queue q => some q
  | .receiver _ => none

end Sink

namespace Subscriber

/-- Hands an event to a subscriber, and tells whether it took it. -/
def deliver (s : Subscriber) (e : Event) : Subscriber × Bool :=
  let (sink, took) := s.sink.deliver e
  ({ s with
      sink
      offered := s.offered ++ [e]
      failures := s.failures + if took then 0 else 1 }, took)

/-- Closes the sink of a subscriber. -/
def close (s : Subscriber) : Subscriber :=
  { s with sink := s.sink.close, closes := s.closes + 1 }

end Subscriber

/-- The subscribers of a topic. -/
structure Dispatcher where
  /-- Those that get the events, in the order in which they came. -/
  subscribers : List Subscriber
  /-- Those that have left. -/
  departed : List Subscriber
  /-- The number of subscribers that ever came. -/
  nextSerial : Nat

namespace Dispatcher

/-- A dispatcher without subscribers. -/
def initial : Dispatcher :=
  ⟨[], [], 0⟩

instance : Inhabited Dispatcher := ⟨initial⟩

/-- Adds a subscriber behind the others. -/
def add (d : Dispatcher) (id : SubscriptionId) (sink : Sink) : Dispatcher :=
  { d with
    subscribers := d.subscribers ++ [⟨id, d.nextSerial, sink, [], 0, 0⟩]
    nextSerial := d.nextSerial + 1 }

/-- The first subscriber with an identifier. -/
def find? (d : Dispatcher) (id : SubscriptionId) : Option Subscriber :=
  d.subscribers.find? fun s => s.id == id

/-- Closes and lets go the first subscriber with an identifier; tells whether there was one. -/
def remove (d : Dispatcher) (id : SubscriptionId) : Dispatcher × Bool :=
  match d.find? id with
  | none => (d, false)
  | some s =>
    ({ d with
        subscribers := d.subscribers.eraseP fun s => s.id == id
        departed := d.departed ++ [s.close] }, true)

/-- Hands an event to subscribers one after the other, and notes for each of them, in the order in
which they were served, whether it took the event. -/
def serve (e : Event) : List Subscriber → List Subscriber × List (SubscriptionId × Bool)
  | [] => ([], [])
  | s :: others =>
    let (next, took) := s.deliver e
    let (served, deliveries) := serve e others
    (next :: served, (s.id, took) :: deliveries)

/-- Serving some does not depend on serving the others. -/
theorem serve_eq (e : Event) (subscribers : List Subscriber) :
    serve e subscribers =
      (subscribers.map fun s => (s.deliver e).1,
        subscribers.map fun s => (s.id, (s.deliver e).2)) := by
  induction subscribers with
  | nil => rfl
  | cons s others ih => simp only [serve, ih, List.map_cons]

/-- Hands an event to every subscriber in turn, and counts those that took it and those that
failed. -/
def dispatch (d : Dispatcher) (e : Event) : Dispatcher × DispatchReport :=
  let (served, deliveries) := serve e d.subscribers
  ({ d with subscribers := served },
    ⟨deliveries.countP fun delivery => delivery.2, deliveries.countP fun delivery => !delivery.2⟩)

theorem dispatch_fst (d : Dispatcher) (e : Event) :
    (d.dispatch e).1 = { d with subscribers := d.subscribers.map fun s => (s.deliver e).1 } := by
  rw [dispatch, serve_eq]

/-- An event that is dispatched changes the subscribers each by itself. -/
@[simp] theorem subscribers_dispatch (d : Dispatcher) (e : Event) :
    (d.dispatch e).1.subscribers = d.subscribers.map fun s => (s.deliver e).1 := by
  rw [dispatch_fst]

/-- The failures of the first subscriber with an identifier. -/
def failures? (d : Dispatcher) (id : SubscriptionId) : Option Nat :=
  (d.find? id).map Subscriber.failures

/-- Closes and lets go all subscribers. -/
def closeAll (d : Dispatcher) : Dispatcher :=
  { d with subscribers := [], departed := d.departed ++ d.subscribers.map Subscriber.close }

/-- All subscribers that ever came, the departed ones included. -/
def everyone (d : Dispatcher) : List Subscriber :=
  d.departed ++ d.subscribers

/-- The last of the subscribers with an identifier that satisfy a condition, departed or not. -/
def newest? (d : Dispatcher) (id : SubscriptionId) (p : Subscriber → Bool) : Option Subscriber :=
  (d.everyone.filter fun s => s.id == id && p s).foldl
    (fun best s =>
      match best with
      | none => some s
      | some b => if b.serial < s.serial then some s else some b)
    none

/-- Changes the sink of one subscriber, departed or not. -/
def changeSink (d : Dispatcher) (serial : Nat) (sink : Sink) : Dispatcher :=
  let change (s : Subscriber) := if s.serial = serial then { s with sink } else s
  { d with subscribers := d.subscribers.map change, departed := d.departed.map change }

end Dispatcher

end TelemetryBands
