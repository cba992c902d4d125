import TelemetryBands.Failure
import TelemetryBands.Publication.Event

/-!
# Queues of events

A queue holds a bounded number of events for one reader. When it is full, its policy decides whether
the oldest event or the new one is lost. A closed queue takes no more events, but still hands out
those that it holds.
-/

namespace TelemetryBands

/-- Which event is lost when a queue is full. -/
inductive OverflowPolicy where
  | dropOldest
  | dropNewest
  deriving DecidableEq, Repr

/-- Events that wait for a reader, the oldest first. -/
structure Queue where
  events : List Event
  closed : Bool
  capacity : Nat
  policy : OverflowPolicy
  /-- The number of events lost. -/
  dropped : Nat
  deriving DecidableEq, Repr

namespace Queue

/-- A queue without events; it has room for at least one. -/
def new (capacity : Nat) (policy : OverflowPolicy) : Queue :=
  ⟨[], false, max capacity 1, policy, 0⟩

/-- The number of events that wait. -/
def size (q : Queue) : Nat :=
  q.events.length

/-- The failure of handing an event to a closed queue. -/
def refusal (e : Event) : Failure :=
  ⟨.closed, e.topic⟩

/-- The failure of reading from a closed queue without events. -/
def ended : Failure :=
  ⟨.closed, "subscription"⟩

/-- Adds an event, losing one if the queue is full. -/
def push (q : Queue) (e : Event) : Except Failure Queue :=
  if q.closed then .error (refusal e)
  else if q.events.length < q.capacity then .ok { q with events := q.events ++ [e] }
  else
    match q.policy with
    | .dropOldest => .ok { q with events := q.events.tail ++ [e], dropped := q.dropped + 1 }
    | .dropNewest => .ok { q with dropped := q.dropped + 1 }

/-- Takes the oldest event, if there is one. -/
def tryPop (q : Queue) : Queue × Except Failure (Option Event) :=
  match q.events with
  | e :: events => ({ q with events }, .ok (some e))
  | [] => (q, if q.closed then .error ended else .ok none)

/-- Takes the oldest event; without one, the wait ends without a message. -/
def pop (q : Queue) : Queue × Except Failure Event :=
  match q.tryPop with
  | (q, .ok (some e)) => (q, .ok e)
  | (q, .ok none) => (q, .error .timedOut)
  | (q, .error failure) => (q, .error failure)

/-- A queue that hands out no event stays as it is. -/
theorem fst_tryPop {q : Queue} (h : ∀ e, q.tryPop.2 ≠ .ok (some e)) : q.tryPop.1 = q := by
  unfold tryPop at h ⊢
  cases hevents : q.events with
  | nil => rfl
  | cons e events =>
    rw [hevents] at h
    exact absurd rfl (h e)

theorem fst_pop {q : Queue} (h : ∀ e, q.pop.2 ≠ .ok e) : q.pop.1 = q := by
  have hsame : q.pop.1 = q.tryPop.1 := by
    unfold pop
    split <;> simp_all
  rw [hsame]
  refine fst_tryPop fun e he => h e ?_
  unfold pop
  split <;> simp_all

/-- Refuses all further events. -/
def close (q : Queue) : Queue :=
  { q with closed := true }

/-- Adds an event as far as the queue takes it. -/
def offer (q : Queue) (e : Event) : Queue :=
  match q.push e with
  | .ok q => q
  | .error _ => q

/-- What a reader gets that waits as long as it takes while someone changes the queue: it waits only
if there is neither an event nor an end. -/
def await (q : Queue) (change : Queue → Queue) : Queue × Except Failure Event :=
  if q.events.isEmpty && !q.closed then (change q).pop
  else
    let (rest, answer) := q.pop
    (change rest, answer)

end Queue

end TelemetryBands
