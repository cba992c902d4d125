import TelemetryBands.Proofs.Registry.Requests

/-!
# Registries whose subscribers read from its queues

As long as nobody brings a sink of their own, every subscription has a queue of the registry. The
queue of a subscription that is in the tables is never closed, so whoever reads from it gets an
event or waits in vain.
-/

namespace TelemetryBands

section Sinks

variable {q : Queue} {sink : Sink} {d : Dispatcher}

@[simp] theorem Queue.closed_tryPop (q : Queue) : q.tryPop.1.closed = q.closed := by
  unfold tryPop
  split <;> rfl

@[simp] theorem Queue.closed_pop (q : Queue) : q.pop.1.closed = q.closed := by
  have hkept := q.closed_tryPop
  unfold pop
  split <;> simp_all

/-- A queue that is not closed takes every event. -/
theorem Queue.exists_push (h : q.closed = false) (e : Event) :
    ∃ rest, q.push e = .ok rest ∧ rest.closed = false := by
  unfold push
  rw [h, if_neg Bool.false_ne_true]
  split
  · exact ⟨_, rfl, rfl⟩
  · split
    · exact ⟨_, rfl, rfl⟩
    · exact ⟨_, rfl, rfl⟩

/-- Who reads from a queue that is not closed gets an event or waits in vain. -/
theorem Queue.pop_of_open (h : q.closed = false) :
    (∃ e, q.pop.2 = .ok e) ∨ q.pop.2 = .error .timedOut := by
  unfold pop tryPop
  cases q.events with
  | nil => simp [h]
  | cons e events => exact Or.inl ⟨e, rfl⟩

/-- A sink that is a queue and not closed. -/
def Sink.IsOpenQueue (sink : Sink) : Prop :=
  ∃ q, sink = .queue q ∧ q.closed = false

theorem Sink.IsOpenQueue.deliver (h : sink.IsOpenQueue) (e : Event) :
    (sink.deliver e).1.IsOpenQueue := by
  obtain ⟨q, rfl, hopen⟩ := h
  obtain ⟨rest, hpush, hrest⟩ := Queue.exists_push hopen e
  exact ⟨rest, by simp only [Sink.deliver, hpush], hrest⟩

/-- Every subscriber has a queue that is not closed. -/
def Dispatcher.Queueing (d : Dispatcher) : Prop :=
  ∀ s ∈ d.subscribers, s.sink.IsOpenQueue

namespace Dispatcher.Queueing

theorem initial : Dispatcher.initial.Queueing := by
  intro s hs
  cases hs

theorem add (h : d.Queueing) (id : SubscriptionId) (hsink : sink.IsOpenQueue) :
    (d.add id sink).Queueing := by
  intro s hs
  rcases List.mem_append.mp hs with hs | hs
  · exact h s hs
  · rw [List.mem_singleton.mp hs]
    exact hsink

theorem remove (h : d.Queueing) (id : SubscriptionId) : (d.remove id).1.Queueing := by
  unfold Dispatcher.remove
  cases d.find? id with
  | none => exact h
  | some gone => exact fun s hs => h s (List.mem_of_mem_eraseP hs)

theorem dispatch (h : d.Queueing) (e : Event) : (d.dispatch e).1.Queueing := by
  intro s hs
  rw [Dispatcher.subscribers_dispatch] at hs
  obtain ⟨before, hbefore, rfl⟩ := List.mem_map.mp hs
  exact (h before hbefore).deliver e

theorem dispatchAll (h : d.Queueing) (events : List Event) : (d.dispatchAll events).Queueing := by
  unfold Dispatcher.dispatchAll
  induction events generalizing d with
  | nil => exact h
  | cons e events ih => exact ih (h.dispatch e)

theorem changeSink (h : d.Queueing) (serial : Nat) (hsink : sink.IsOpenQueue) :
    (d.changeSink serial sink).Queueing := by
  intro s hs
  obtain ⟨before, hbefore, rfl⟩ := List.mem_map.mp hs
  split
  · exact hsink
  · exact h before hbefore

end Dispatcher.Queueing

/-- Whatever makes a topic work leaves the queues of its subscribers open. -/
theorem Pipeline.queueing_apply {p : Pipeline} (call : Call) (hcall : call.IsWork)
    (hp : p.dispatcher.Queueing) : (p.apply call).1.dispatcher.Queueing := by
  rw [dispatcher_apply hcall]
  exact hp.dispatchAll _

end Sinks

namespace Registry

variable {r : Registry} {p : Pipeline} {id : SubscriptionId} {α : Type}

/-- Every subscription has a queue of the registry that is not closed. -/
structure Queueing (r : Registry) : Prop where
  queued : ∀ s ∈ r.subscriptions, s.queued = true
  listening : ∀ p ∈ r.topics, p.dispatcher.Queueing

/-- A call that brings no sink of the caller's own. -/
def Call.IsQueued : Call → Prop
  | .subscribeSink _ _ => False
  | _ => True

namespace Queueing

theorem new (settings : Settings) (permits : Endpoint → Bool) :
    (Registry.new settings permits).Queueing where
  queued := by simp [Registry.new]
  listening := by simp [Registry.new]

theorem topic? {name : String} (h : r.Queueing) (hp : r.topic? name = some p) :
    p.dispatcher.Queueing :=
  h.listening p (mem_of_topic? hp).1

theorem putTopic (h : r.Queueing) (hp : p.dispatcher.Queueing) : (r.putTopic p).Queueing where
  queued := h.queued
  listening := by
    intro x hx
    obtain ⟨before, hbefore, rfl⟩ := List.mem_map.mp hx
    split
    · exact hp
    · exact h.listening before hbefore

theorem createFrom (h : r.Queueing) (name : String) (spec : TopicSpec) :
    (r.createFrom name spec).1.Queueing := by
  unfold Registry.createFrom
  cases r.examine name spec with
  | error failure => exact h
  | ok endpoint =>
    refine ⟨h.queued, fun p hp => ?_⟩
    rcases List.mem_append.mp hp with hp | hp
    · exact h.listening p hp
    · rw [List.mem_singleton.mp hp]
      exact .initial

theorem delete (h : r.Queueing) (name : String) : (r.delete name).1.Queueing := by
  unfold Registry.delete
  cases r.topic name with
  | error failure => exact h
  | ok p =>
    exact ⟨fun s hs => h.queued s (List.mem_of_mem_filter hs),
      fun q hq => h.listening q (List.mem_of_mem_filter hq)⟩

theorem deleteAll (h : r.Queueing) (names : List String) :
    (names.foldl (fun r name => (r.delete name).1) r).Queueing := by
  induction names generalizing r with
  | nil => exact h
  | cons name names ih => exact ih (h.delete name)

theorem subscribe (h : r.Queueing) (topic : String) : (r.subscribe topic).1.Queueing := by
  unfold Registry.subscribe
  cases hp : r.topic? topic with
  | none =>
    rw [attach_of_none hp]
    exact h
  | some p =>
    have hsink : (Sink.queue
        (.new r.settings.queueCapacity.toNat r.settings.overflow)).IsOpenQueue := ⟨_, rfl, rfl⟩
    have hput := h.putTopic (p := p.subscribe (.issue r.issued) _)
      ((h.topic? hp).add (.issue r.issued) hsink)
    rw [attach_of_some hp]
    refine ⟨fun s hs => ?_, hput.listening⟩
    rcases List.mem_append.mp hs with hs | hs
    · exact h.queued s hs
    · rw [List.mem_singleton.mp hs]

theorem unsubscribe (h : r.Queueing) (id : SubscriptionId) : (r.unsubscribe id).1.Queueing := by
  cases hentry : r.subscription? id with
  | none =>
    rw [unsubscribe_of_none hentry]
    exact h
  | some s =>
    have hforget : (r.forget id).Queueing :=
      ⟨fun s hs => h.queued s (List.mem_of_mem_filter hs), h.listening⟩
    rw [unsubscribe_of_some hentry]
    cases hp : (r.forget id).topic? s.topic with
    | none => exact hforget
    | some p => exact hforget.putTopic ((hforget.topic? hp).remove id)

theorem putQueue {s : Subscriber} {q rest : Queue} (h : r.Queueing)
    (hqueue : r.queueOf id = .ok (p, s, q)) (hrest : rest.closed = q.closed) :
    (r.putQueue p s rest).Queueing := by
  obtain ⟨entry, -, -, hp, hfind, hsink⟩ := queueOf_ok hqueue
  have hlistening := h.topic? hp
  obtain ⟨q', heq, hopen⟩ := hlistening s (List.mem_of_find?_eq_some hfind)
  have hq : q' = q := by simpa [heq, Sink.queue?] using hsink
  exact h.putTopic (hlistening.changeSink s.serial ⟨rest, rfl, by rw [hrest, ← hq, hopen]⟩)

theorem next (h : r.Queueing) (id : SubscriptionId) : (r.next id).1.Queueing := by
  unfold Registry.next
  cases hqueue : r.queueOf id with
  | error failure => exact h
  | ok found =>
    obtain ⟨p, s, q⟩ := found
    exact h.putQueue hqueue q.closed_pop

theorem tryNext (h : r.Queueing) (id : SubscriptionId) : (r.tryNext id).1.Queueing := by
  unfold Registry.tryNext
  cases hqueue : r.queueOf id with
  | error failure => exact h
  | ok found =>
    obtain ⟨p, s, q⟩ := found
    exact h.putQueue hqueue q.closed_tryPop

section Work

variable {f : Pipeline → Pipeline × α × Effect}
  (hf : ∀ p, p.dispatcher.Queueing → (f p).1.dispatcher.Queueing)
include hf

theorem work (h : r.Queueing) (name : String) : (r.work name f).1.Queueing := by
  unfold Registry.work
  cases hp : r.topic? name with
  | none => exact h
  | some p =>
    have hput := h.putTopic (hf p (h.topic? hp))
    exact ⟨hput.queued, hput.listening⟩

theorem workAll (h : r.Queueing) (names : List String) : (r.workAll f names).1.Queueing := by
  induction names generalizing r with
  | nil => exact h
  | cons name names ih => exact ih (h.work hf name)

end Work

theorem ingest (h : r.Queueing) (device point : String) (s : Sample) :
    (r.ingest device point s).1.Queueing := by
  unfold Registry.ingest
  cases r.endpointOf device point with
  | error failure => exact h
  | ok endpoint =>
    exact h.workAll (f := fun p => p.ingest s)
      (fun _ hp => Pipeline.queueing_apply (.ingest s) trivial hp) _

theorem advanceTopics (h : r.Queueing) (w : Millis) (names : List String) :
    (r.advanceTopics w names).1.Queueing :=
  h.workAll (f := fun p => ((p.advance w).1, (), (p.advance w).2))
    (fun _ hp => Pipeline.queueing_apply (.advance w) trivial hp) names

theorem advance (h : r.Queueing) (device point : String) (w : Millis) :
    (r.advance device point w).1.Queueing := by
  unfold Registry.advance
  cases r.endpointOf device point with
  | error failure => exact h
  | ok endpoint => exact h.advanceTopics w _

theorem advanceTopic (h : r.Queueing) (name : String) (w : Millis) :
    (r.advanceTopic name w).1.Queueing := by
  unfold Registry.advanceTopic
  cases r.topic name with
  | error failure => exact h
  | ok p => exact h.advanceTopics w [name]

theorem feed (h : r.Queueing) (report : DrainReport) (item : FeedItem) :
    (r.feed report item).1.Queueing := by
  cases item with
  | sample device point s =>
    have hingest := h.ingest device point s
    simp only [Registry.feed]
    split <;> simp_all
  | watermark device point t =>
    have hadvance : (r.advanceTarget device point t).1.Queueing := by
      unfold advanceTarget
      split
      · exact h.advance _ _ t
      · exact h.advanceTopics t _
      · exact h
    simp only [Registry.feed]
    split <;> simp_all

theorem drainFrom (h : r.Queueing) (report : DrainReport)
    (items : List (Except Failure FeedItem)) : (r.drainFrom report items).1.Queueing := by
  induction items generalizing r report with
  | nil => exact h
  | cons item items ih =>
    cases item with
    | error failure => exact h
    | ok item =>
      have hfeed := h.feed report item
      unfold Registry.drainFrom
      split <;> simp_all

theorem load (h : r.Queueing) (name text : String) : (r.load name text).1.Queueing := by
  unfold Registry.load topic
  cases hp : r.topic? name with
  | none => exact h
  | some p =>
    simp only [Except.bind]
    cases hload : p.load text with
    | error failure => exact h
    | ok q =>
      have happly : (p.apply (.load text)).1 = q := by simp only [Pipeline.apply, hload]
      rw [← happly]
      exact h.putTopic (Pipeline.queueing_apply (.load text) trivial (h.topic? hp))

/-- Every call that brings no sink keeps the queues open. -/
theorem apply (h : r.Queueing) {call : Call} (hcall : call.IsQueued) :
    (r.apply call).1.Queueing := by
  cases call with
  | create name text =>
    simp only [Registry.apply, create]
    cases TopicSpec.parse text with
    | error flaw => exact h
    | ok spec => exact h.createFrom name spec
  | createFrom name spec => exact h.createFrom name spec
  | delete name => exact h.delete name
  | cleanUp => exact h.deleteAll r.names
  | subscribe topic => exact h.subscribe topic
  | subscribeSink topic sink => exact hcall.elim
  | unsubscribe id => exact h.unsubscribe id
  | next id => exact h.next id
  | tryNext id => exact h.tryNext id
  | ingest device point s =>
    simp only [Registry.apply]
    exact h.ingest device point s
  | advance device point w =>
    simp only [Registry.apply]
    exact h.advance device point w
  | advanceTopic name w =>
    simp only [Registry.apply]
    exact h.advanceTopic name w
  | advanceAll w =>
    simp only [Registry.apply]
    exact h.advanceTopics w r.names
  | drain items =>
    simp only [Registry.apply]
    exact h.drainFrom .zero items
  | load name text =>
    simp only [Registry.apply]
    exact h.load name text
  | drainFaults => exact ⟨h.queued, h.listening⟩
  | names | key | stats | save => exact h

/-- Who reads for a subscription that is in the tables gets an event or waits in vain. -/
theorem next_of_known (h : r.Queueing) (hconsistent : r.tables.Consistent) {s : Subscription}
    (hentry : r.subscription? id = some s) :
    (∃ e, (r.next id).2 = .ok e) ∨ (r.next id).2 = .error .timedOut := by
  obtain ⟨hmem, hid⟩ := (subscription?_eq_some_iff hconsistent).mp hentry
  obtain ⟨p, hp⟩ := (agrees hconsistent).known s hmem
  obtain ⟨subscriber, hfind, -⟩ := find?_of_mem_idsOf hconsistent hp
    ((mem_idsOf_iff hconsistent).mpr ⟨s, hentry, rfl⟩)
  obtain ⟨q, hsink, hopen⟩ := h.topic? hp subscriber (List.mem_of_find?_eq_some hfind)
  have hqueue : r.queueOf id = .ok (p, subscriber, q) := by
    simp only [queueOf, hentry, h.queued s hmem, hp, hfind, hsink, Sink.queue?, if_true]
  have hanswer : (r.next id).2 = q.pop.2 := by rw [Registry.next, hqueue]
  rw [hanswer]
  exact Queue.pop_of_open hopen

end Queueing

/-- A subscription that is in the tables can be ended. -/
theorem unsubscribe_of_known {s : Subscription} (hentry : r.subscription? id = some s) :
    ∃ next, r.unsubscribe id = (next, .ok ()) := by
  rw [unsubscribe_of_some hentry]
  cases (r.forget id).topic? s.topic with
  | none => exact ⟨_, rfl⟩
  | some p => exact ⟨_, rfl⟩

end Registry

end TelemetryBands
