import Mathlib.Data.List.Induction
import TelemetryBands.Delivery.Queue

/-!
# What queues keep and what they lose

A queue is used by calls: events are handed to it and taken from it, and it is closed. The events
that it took, numbered in their order, are divided into those that it has handed out, those that
wait and those that it has lost. The main statement is that nothing is lost but by an overflow,
which loses the oldest event that waits or the new one, as the policy says; what is kept stays in
order.
-/

namespace TelemetryBands.Queue

/-- A call on a queue. -/
inductive Call where
  | push (e : Event)
  | tryPop
  | close
  deriving DecidableEq, Repr

/-- What a call answers. -/
inductive Answer where
  | took (e : Event)
  | refused (failure : Failure)
  | gave (e : Event)
  /-- There is no event, but there may be one later. -/
  | nothing
  /-- There is no event, and there will be none. -/
  | over (failure : Failure)
  | closed
  deriving DecidableEq, Repr

/-- Makes one call. -/
def apply (q : Queue) : Call → Queue × Answer
  | .push e =>
    match q.push e with
    | .ok next => (next, .took e)
    | .error failure => (q, .refused failure)
  | .tryPop =>
    match q.tryPop with
    | (next, .ok (some e)) => (next, .gave e)
    | (next, .ok none) => (next, .nothing)
    | (next, .error failure) => (next, .over failure)
  | .close => (q.close, .closed)

/-- Makes a list of calls. -/
def run (q : Queue) : List Call → Queue × List Answer
  | [] => (q, [])
  | call :: calls =>
    let (next, answer) := q.apply call
    let (final, answers) := next.run calls
    (final, answer :: answers)

/-- The event that an answer confirms, if it confirms one. -/
def Answer.taken? : Answer → Option Event
  | .took e => some e
  | _ => none

/-- The event that an answer hands out, if it hands one out. -/
def Answer.given? : Answer → Option Event
  | .gave e => some e
  | _ => none

/-- The events that were taken. -/
def taken (answers : List Answer) : List Event :=
  answers.filterMap Answer.taken?

/-- The events that were handed out. -/
def given (answers : List Answer) : List Event :=
  answers.filterMap Answer.given?

/-- The numbered event that is lost when an event is handed to a full queue: the oldest of those
that wait, which are the last that were taken, or the new one, which is the next to be taken. -/
def Loses (policy : OverflowPolicy) (waiting took : List Event) (e : Event) (x : Event × Nat) :
    Prop :=
  match policy with
  | .dropOldest => waiting.head? = some x.1 ∧ waiting = took.drop x.2
  | .dropNewest => x = (e, took.length)

/-- A numbered event was lost by a call of a history, which found the queue full. -/
def LostIn (capacity : Nat) (policy : OverflowPolicy) (calls : List Call) (x : Event × Nat) :
    Prop :=
  ∃ before e after, calls = before ++ .push e :: after ∧ .close ∉ before ∧
    ((new capacity policy).run before).1.size = max 1 capacity ∧
    Loses policy ((new capacity policy).run before).1.events
      (taken ((new capacity policy).run before).2) e x

variable {q : Queue} {capacity : Nat} {policy : OverflowPolicy} {calls : List Call}
  {answers : List Answer} {e : Event}

/-- A history in two parts. -/
theorem run_append (q : Queue) (before after : List Call) :
    q.run (before ++ after) =
      (((q.run before).1.run after).1, (q.run before).2 ++ ((q.run before).1.run after).2) := by
  induction before generalizing q with
  | nil => rfl
  | cons call before ih => simp only [List.cons_append, run, ih]

@[simp] theorem length_run (q : Queue) (calls : List Call) :
    (q.run calls).2.length = calls.length := by
  induction calls generalizing q with
  | nil => rfl
  | cons call calls ih => simp only [run, List.length_cons, ih]

/-- The answer to a call in the middle of a history. -/
theorem getElem?_run (q : Queue) (before : List Call) (call : Call) (rest : List Call) :
    (q.run (before ++ call :: rest)).2[before.length]? =
      some ((q.run before).1.apply call).2 := by
  rw [run_append, List.getElem?_append_right (Nat.le_of_eq (length_run q before)), length_run,
    Nat.sub_self]
  rfl

/-- The answers behind that to a call in the middle of a history. -/
theorem drop_run (q : Queue) (before : List Call) (call : Call) (rest : List Call) :
    (q.run (before ++ call :: rest)).2.drop (before.length + 1) =
      (((q.run before).1.apply call).1.run rest).2 := by
  have hlength := length_run q before
  rw [run_append, ← hlength, List.drop_append, List.drop_of_length_le (Nat.le_succ _),
    Nat.add_sub_cancel_left]
  rfl

@[simp] theorem taken_append (before after : List Answer) :
    taken (before ++ after) = taken before ++ taken after :=
  List.filterMap_append

@[simp] theorem given_append (before after : List Answer) :
    given (before ++ after) = given before ++ given after :=
  List.filterMap_append

@[simp] theorem taken_singleton (answer : Answer) : taken [answer] = answer.taken?.toList := by
  cases answer <;> rfl

@[simp] theorem given_singleton (answer : Answer) : given [answer] = answer.given?.toList := by
  cases answer <;> rfl

/-- What can become of an event that is handed to a queue. -/
theorem apply_push_cases (q : Queue) (e : Event) :
    (q.closed = true ∧ q.apply (.push e) = (q, .refused (refusal e))) ∨
    (q.closed = false ∧ q.size < q.capacity ∧
      q.apply (.push e) = ({ q with events := q.events ++ [e] }, .took e)) ∨
    (q.closed = false ∧ q.capacity ≤ q.size ∧ q.policy = .dropOldest ∧
      q.apply (.push e) =
        ({ q with events := q.events.tail ++ [e], dropped := q.dropped + 1 }, .took e)) ∨
    (q.closed = false ∧ q.capacity ≤ q.size ∧ q.policy = .dropNewest ∧
      q.apply (.push e) = ({ q with dropped := q.dropped + 1 }, .took e)) := by
  obtain ⟨events, closed, capacity, policy, dropped⟩ := q
  cases closed with
  | true => exact Or.inl ⟨rfl, rfl⟩
  | false =>
    by_cases hroom : events.length < capacity
    · exact Or.inr (Or.inl ⟨rfl, hroom, by simp [apply, push, hroom]⟩)
    · have hfull := Nat.le_of_not_lt hroom
      cases policy with
      | dropOldest =>
        exact Or.inr (Or.inr (Or.inl ⟨rfl, hfull, rfl, by simp [apply, push, hroom]⟩))
      | dropNewest =>
        exact Or.inr (Or.inr (Or.inr ⟨rfl, hfull, rfl, by simp [apply, push, hroom]⟩))

/-- What a reader can get. -/
theorem apply_tryPop_cases (q : Queue) :
    (∃ e rest, q.events = e :: rest ∧
      q.apply .tryPop = ({ q with events := rest }, .gave e)) ∨
    (q.events = [] ∧
      q.apply .tryPop = (q, if q.closed then .over ended else .nothing)) := by
  obtain ⟨events, closed, capacity, policy, dropped⟩ := q
  cases events with
  | cons e rest => exact Or.inl ⟨e, rest, rfl, rfl⟩
  | nil => cases closed <;> exact Or.inr ⟨rfl, rfl⟩

/-- The numbered events of a history, divided by what became of them. -/
structure Divides (q : Queue) (took out : List Event) (handed waiting lost : List (Event × Nat)) :
    Prop where
  handed_eq : handed.map Prod.fst = out
  waiting_eq : waiting.map Prod.fst = q.events
  kept : (handed ++ waiting).Sublist took.zipIdx
  perm : (handed ++ waiting ++ lost).Perm took.zipIdx
  dropped_eq : lost.length = q.dropped
  /-- What waits came last, unless new events are lost. -/
  recent : q.policy = .dropOldest → waiting <:+ took.zipIdx

namespace Divides

variable {took out : List Event} {handed waiting lost : List (Event × Nat)} {x : Event × Nat}

/-- A new event goes behind those that wait. -/
theorem append (h : q.Divides took out handed waiting lost) (e : Event) :
    Divides { q with events := q.events ++ [e] } (took ++ [e]) out handed
      (waiting ++ [(e, took.length)]) lost where
  handed_eq := h.handed_eq
  waiting_eq := by rw [List.map_append, h.waiting_eq]; rfl
  kept := by
    rw [List.zipIdx_append, ← List.append_assoc, Nat.zero_add]
    exact h.kept.append (List.Sublist.refl _)
  perm := by
    rw [List.zipIdx_append, Nat.zero_add]
    refine List.Perm.trans ?_ (h.perm.append_right _)
    simp only [List.append_assoc]
    exact (List.perm_append_comm.append_left _).append_left _
  dropped_eq := h.dropped_eq
  recent := by
    intro hpolicy
    obtain ⟨older, holder⟩ := h.recent hpolicy
    refine ⟨older, ?_⟩
    rw [List.zipIdx_append, Nat.zero_add, ← holder, List.append_assoc]
    rfl

/-- The oldest event that waits is lost. -/
theorem lose (h : q.Divides took out handed (x :: waiting) lost) :
    Divides { q with events := q.events.tail, dropped := q.dropped + 1 } took out handed waiting
      (lost ++ [x]) where
  handed_eq := h.handed_eq
  waiting_eq := by rw [← h.waiting_eq]; rfl
  kept := ((List.sublist_cons_self x waiting).append_left handed).trans h.kept
  perm := by
    refine List.Perm.trans ?_ h.perm
    simp only [List.append_assoc, List.cons_append]
    refine List.Perm.append_left handed ?_
    rw [← List.append_assoc]
    exact List.perm_append_singleton x _
  dropped_eq := by rw [List.length_append, h.dropped_eq]; rfl
  recent := fun hpolicy => (List.suffix_cons x waiting).trans (h.recent hpolicy)

/-- The new event is lost. -/
theorem loseNew (h : q.Divides took out handed waiting lost) (hpolicy : q.policy = .dropNewest)
    (e : Event) :
    Divides { q with dropped := q.dropped + 1 } (took ++ [e]) out handed waiting
      (lost ++ [(e, took.length)]) where
  handed_eq := h.handed_eq
  waiting_eq := h.waiting_eq
  kept := by
    rw [List.zipIdx_append]
    exact h.kept.trans (List.sublist_append_left _ _)
  perm := by
    rw [List.zipIdx_append, ← List.append_assoc, Nat.zero_add]
    exact h.perm.append_right _
  dropped_eq := by rw [List.length_append, h.dropped_eq]; rfl
  recent := by
    intro hother
    rw [show q.policy = .dropOldest from hother] at hpolicy
    cases hpolicy

/-- The oldest event that waits is handed out. -/
theorem handOut (h : q.Divides took out handed (x :: waiting) lost) :
    Divides { q with events := q.events.tail } took (out ++ [x.1]) (handed ++ [x]) waiting
      lost where
  handed_eq := by rw [List.map_append, h.handed_eq]; rfl
  waiting_eq := by rw [← h.waiting_eq]; rfl
  kept := by
    rw [List.append_assoc]
    exact h.kept
  perm := by
    rw [List.append_assoc handed [x] waiting]
    exact h.perm
  dropped_eq := h.dropped_eq
  recent := fun hpolicy => (List.suffix_cons x waiting).trans (h.recent hpolicy)

/-- While the oldest event is lost, what waits is what was taken from that event on. -/
theorem events_eq_drop (h : q.Divides took out handed (x :: waiting) lost)
    (hpolicy : q.policy = .dropOldest) : q.events = took.drop x.2 := by
  obtain ⟨older, holder⟩ := h.recent hpolicy
  have hplace : x.2 = older.length := by
    have hx : took.zipIdx[older.length]? = some x := by
      rw [← holder, List.getElem?_append_right (Nat.le_refl _), Nat.sub_self]
      rfl
    rw [List.getElem?_zipIdx] at hx
    obtain ⟨e, -, rfl⟩ := Option.map_eq_some_iff.mp hx
    exact Nat.zero_add _
  have htook : took = (older ++ x :: waiting).map Prod.fst := by
    rw [holder]
    exact List.zipIdx_map_fst 0 took |>.symm
  rw [htook, hplace, List.map_append, ← List.length_map Prod.fst, List.drop_left, h.waiting_eq]

end Divides

/-- What holds of a queue after every history. -/
structure Follows (q : Queue) (capacity : Nat) (policy : OverflowPolicy) (calls : List Call)
    (answers : List Answer) : Prop where
  run_eq : (new capacity policy).run calls = (q, answers)
  capacity_eq : q.capacity = max 1 capacity
  policy_eq : q.policy = policy
  size_le : q.size ≤ q.capacity
  closed_iff : q.closed = true ↔ .close ∈ calls
  divided : ∃ handed waiting lost, q.Divides (taken answers) (given answers) handed waiting lost ∧
    ∀ x ∈ lost, LostIn capacity policy calls x

theorem LostIn.append {x : Event × Nat} (h : LostIn capacity policy calls x) (call : Call) :
    LostIn capacity policy (calls ++ [call]) x := by
  obtain ⟨before, e, after, rfl, hlost⟩ := h
  exact ⟨before, e, after ++ [call], by rw [List.append_assoc]; rfl, hlost⟩

namespace Follows

theorem initial (capacity : Nat) (policy : OverflowPolicy) :
    (new capacity policy).Follows capacity policy [] [] where
  run_eq := rfl
  capacity_eq := Nat.max_comm capacity 1
  policy_eq := rfl
  size_le := Nat.zero_le _
  closed_iff := by simp [new]
  divided := by
    refine ⟨[], [], [], ?_, fun x hx => absurd hx List.not_mem_nil⟩
    exact ⟨rfl, rfl, List.Sublist.refl _, List.Perm.refl _, rfl, fun _ => List.suffix_refl _⟩

theorem run_eq_append (h : q.Follows capacity policy calls answers) (call : Call) :
    (new capacity policy).run (calls ++ [call]) =
      ((q.apply call).1, answers ++ [(q.apply call).2]) := by
  rw [run_append, h.run_eq]
  rfl

/-- What an overflow loses is lost in the history that ends with it. -/
theorem lostIn (h : q.Follows capacity policy calls answers) (hopen : q.closed = false)
    (hfull : q.capacity ≤ q.size) {x : Event × Nat}
    (hloses : Loses policy q.events (taken answers) e x) :
    LostIn capacity policy (calls ++ [.push e]) x := by
  refine ⟨calls, e, [], rfl, ?_, ?_, ?_⟩
  · rw [← h.closed_iff, hopen]
    exact Bool.false_ne_true
  · rw [h.run_eq, ← h.capacity_eq]
    exact Nat.le_antisymm h.size_le hfull
  · rw [h.run_eq]
    exact hloses

/-- One more event is handed to the queue. -/
theorem push (h : q.Follows capacity policy calls answers) (e : Event) :
    (q.apply (.push e)).1.Follows capacity policy (calls ++ [.push e])
      (answers ++ [(q.apply (.push e)).2]) := by
  have hrun := h.run_eq_append (.push e)
  obtain ⟨handed, waiting, lost, hdivides, hlost⟩ := h.divided
  have hclosed : q.closed = true ↔ .close ∈ calls ++ [.push e] := by
    rw [h.closed_iff]
    simp
  have hstill : ∀ x ∈ lost, LostIn capacity policy (calls ++ [.push e]) x :=
    fun x hx => (hlost x hx).append _
  rcases apply_push_cases q e with ⟨-, hpush⟩ | ⟨-, hroom, hpush⟩ |
    ⟨hopen, hfull, hpolicy, hpush⟩ | ⟨hopen, hfull, hpolicy, hpush⟩
  · rw [hpush] at hrun ⊢
    refine ⟨hrun, h.capacity_eq, h.policy_eq, h.size_le, hclosed, handed, waiting, lost, ?_, hstill⟩
    simpa [Answer.taken?, Answer.given?] using hdivides
  · rw [hpush] at hrun ⊢
    refine ⟨hrun, h.capacity_eq, h.policy_eq, ?_, hclosed, handed,
      waiting ++ [(e, (taken answers).length)], lost, ?_, hstill⟩
    · rw [size, List.length_append]
      exact hroom
    · simpa [Answer.taken?, Answer.given?] using hdivides.append e
  · rw [hpush] at hrun ⊢
    -- A full queue has an oldest event.
    have hpositive : 0 < q.capacity := by
      rw [h.capacity_eq]
      omega
    cases waiting with
    | nil =>
      have hempty : q.size = 0 := by rw [size, ← hdivides.waiting_eq]; rfl
      omega
    | cons x waiting =>
      have hevents := hdivides.waiting_eq
      have hloses : Loses policy q.events (taken answers) e x := by
        rw [← h.policy_eq, hpolicy]
        exact ⟨by rw [← hevents]; rfl, hdivides.events_eq_drop hpolicy⟩
      refine ⟨hrun, h.capacity_eq, h.policy_eq, ?_, hclosed, handed,
        waiting ++ [(e, (taken answers).length)], lost ++ [x], ?_, ?_⟩
      · have hsize := h.size_le
        rw [size, ← hevents] at hsize
        rw [size, ← hevents]
        simpa using hsize
      · simpa [Answer.taken?, Answer.given?] using hdivides.lose.append e
      · intro y hy
        rcases List.mem_append.mp hy with hy | hy
        · exact hstill y hy
        · rw [List.mem_singleton.mp hy]
          exact h.lostIn hopen hfull hloses
  · rw [hpush] at hrun ⊢
    refine ⟨hrun, h.capacity_eq, h.policy_eq, h.size_le, hclosed, handed, waiting,
      lost ++ [(e, (taken answers).length)], ?_, ?_⟩
    · simpa [Answer.taken?, Answer.given?] using hdivides.loseNew hpolicy e
    · intro y hy
      rcases List.mem_append.mp hy with hy | hy
      · exact hstill y hy
      · rw [List.mem_singleton.mp hy]
        refine h.lostIn hopen hfull ?_
        rw [← h.policy_eq, hpolicy]
        rfl

/-- A reader comes once more. -/
theorem tryPop (h : q.Follows capacity policy calls answers) :
    (q.apply .tryPop).1.Follows capacity policy (calls ++ [.tryPop])
      (answers ++ [(q.apply .tryPop).2]) := by
  have hrun := h.run_eq_append .tryPop
  obtain ⟨handed, waiting, lost, hdivides, hlost⟩ := h.divided
  have hclosed : q.closed = true ↔ .close ∈ calls ++ [.tryPop] := by
    rw [h.closed_iff]
    simp
  have hstill : ∀ x ∈ lost, LostIn capacity policy (calls ++ [.tryPop]) x :=
    fun x hx => (hlost x hx).append _
  rcases apply_tryPop_cases q with ⟨e, rest, hevents, hpop⟩ | ⟨-, hpop⟩
  · rw [hpop] at hrun ⊢
    cases waiting with
    | nil =>
      rw [← hdivides.waiting_eq] at hevents
      cases hevents
    | cons x waiting =>
      obtain rfl : x.1 = e := by
        rw [← hdivides.waiting_eq] at hevents
        exact (List.cons.inj hevents).1
      have hsize := h.size_le
      refine ⟨hrun, h.capacity_eq, h.policy_eq, ?_, hclosed, handed ++ [x], waiting, lost, ?_,
        hstill⟩
      · rw [size, hevents, List.length_cons] at hsize
        exact Nat.le_of_succ_le hsize
      · have hnext := hdivides.handOut
        rw [hevents] at hnext
        simpa [Answer.taken?, Answer.given?] using hnext
  · rw [hpop] at hrun ⊢
    refine ⟨hrun, h.capacity_eq, h.policy_eq, h.size_le, hclosed, handed, waiting, lost, ?_, hstill⟩
    split <;> simpa [Answer.taken?, Answer.given?] using hdivides

/-- The queue is closed. -/
theorem close (h : q.Follows capacity policy calls answers) :
    (q.apply .close).1.Follows capacity policy (calls ++ [.close])
      (answers ++ [(q.apply .close).2]) := by
  obtain ⟨handed, waiting, lost, hdivides, hlost⟩ := h.divided
  refine ⟨h.run_eq_append .close, h.capacity_eq, h.policy_eq, h.size_le, ?_, handed, waiting, lost,
    ?_, fun x hx => (hlost x hx).append _⟩
  · simp [apply, Queue.close]
  · simp only [apply, taken_append, given_append, taken_singleton, given_singleton, Answer.taken?,
      Answer.given?, Option.toList_none, List.append_nil]
    exact ⟨hdivides.handed_eq, hdivides.waiting_eq, hdivides.kept, hdivides.perm,
      hdivides.dropped_eq, hdivides.recent⟩

end Follows

theorem run_follows (capacity : Nat) (policy : OverflowPolicy) (calls : List Call) :
    ((new capacity policy).run calls).1.Follows capacity policy calls
      ((new capacity policy).run calls).2 := by
  induction calls using List.reverseRecOn with
  | nil => exact Follows.initial capacity policy
  | append_singleton calls call ih =>
    rw [ih.run_eq_append call]
    cases call with
    | push e => exact ih.push e
    | tryPop => exact ih.tryPop
    | close => exact ih.close

/-- An event that is handed to a closed queue is refused. -/
theorem apply_push_of_closed (hclosed : q.closed = true) (e : Event) :
    q.apply (.push e) = (q, .refused (refusal e)) := by
  simp [apply, push, hclosed]

/-- A closed queue takes nothing, loses nothing and hands out what it holds in its order. -/
theorem run_of_closed (hclosed : q.closed = true) (calls : List Call) :
    taken (q.run calls).2 = [] ∧ given (q.run calls).2 ++ (q.run calls).1.events = q.events ∧
      (q.run calls).1.dropped = q.dropped := by
  induction calls generalizing q with
  | nil => exact ⟨rfl, rfl, rfl⟩
  | cons call calls ih =>
    have hsplit : (q.run (call :: calls)) = (((q.apply call).1.run calls).1,
        [(q.apply call).2] ++ ((q.apply call).1.run calls).2) := rfl
    simp only [hsplit, taken_append, given_append, taken_singleton, given_singleton]
    cases call with
    | push e =>
      rw [apply_push_of_closed hclosed]
      exact ih hclosed
    | tryPop =>
      rcases apply_tryPop_cases q with ⟨e, rest, hevents, hpop⟩ | ⟨-, hpop⟩
      · obtain ⟨htaken, hgiven, hdropped⟩ := ih (q := { q with events := rest }) hclosed
        rw [hpop, hevents]
        exact ⟨htaken, congrArg (e :: ·) hgiven, hdropped⟩
      · rw [hpop, if_pos hclosed]
        exact ih hclosed
    | close => exact ih (q := q.close) rfl

/-- An open queue takes every event, and where the oldest one is lost, it waits behind all
others. -/
theorem apply_push_of_open (hopen : q.closed = false) (e : Event) :
    (q.apply (.push e)).2 = .took e ∧
      (q.policy = .dropOldest → (q.apply (.push e)).1.events.getLast? = some e) := by
  rcases apply_push_cases q e with
    ⟨hclosed, -⟩ | ⟨-, -, hpush⟩ | ⟨-, -, -, hpush⟩ | ⟨-, -, hpolicy, hpush⟩
  · rw [hopen] at hclosed
    cases hclosed
  · rw [hpush]
    exact ⟨rfl, fun _ => List.getLast?_concat⟩
  · rw [hpush]
    exact ⟨rfl, fun _ => List.getLast?_concat⟩
  · rw [hpush]
    refine ⟨rfl, fun hother => ?_⟩
    rw [hpolicy] at hother
    cases hother

/-- A reader gets the oldest event that waits. -/
theorem apply_tryPop_eq_gave : (q.apply .tryPop).2 = .gave e ↔ q.events.head? = some e := by
  rcases apply_tryPop_cases q with ⟨first, rest, hevents, hpop⟩ | ⟨hevents, hpop⟩
  · rw [hpop, hevents]
    simp
  · rw [hpop, hevents]
    cases q.closed <;> simp

/-- A reader is told of the end exactly if the queue is closed and holds no event. -/
theorem apply_tryPop_eq_over {failure : Failure} :
    (q.apply .tryPop).2 = .over failure ↔
      failure = ended ∧ q.closed = true ∧ q.events = [] := by
  rcases apply_tryPop_cases q with ⟨e, rest, hevents, hpop⟩ | ⟨hevents, hpop⟩
  · rw [hpop, hevents]
    simp
  · rw [hpop, hevents]
    cases q.closed <;> simp [eq_comm]

/-- What a queue keeps and what it loses, over every history of a new queue. It never holds more
events than it has room for. The events that it took, numbered in their order, are divided into
those that are kept and as many as it counts as dropped: the kept ones stand in their order, first
those that it has handed out and then those that wait; and each of the others was lost when an event
was handed to the full queue, as the oldest of those that waited or as that event itself. If the
oldest event goes, the newest one always waits. After the end every event is refused without any
change, and the events that wait are handed out in their order. A reader always gets the oldest
event that waits, and is told of the end exactly when there is none left. -/
theorem queues_lose_by_overflow_only (capacity : Nat) (policy : OverflowPolicy)
    (calls : List Call) :
    let history := (new capacity policy).run
    let q := (history calls).1
    let answers := (history calls).2
    q.size ≤ max 1 capacity ∧
    (∃ kept lost : List (Event × Nat), kept.Sublist (taken answers).zipIdx ∧
      (kept ++ lost).Perm (taken answers).zipIdx ∧
      kept.map Prod.fst = given answers ++ q.events ∧ lost.length = q.dropped ∧
      ∀ x ∈ lost, LostIn capacity policy calls x) ∧
    (∀ before e rest, calls = before ++ .push e :: rest →
      (.close ∉ before → answers[before.length]? = some (.took e) ∧ (policy = .dropOldest →
        (history (before ++ [.push e])).1.events.getLast? = some e)) ∧
      (.close ∈ before → answers[before.length]? = some (.refused (refusal e)) ∧
        (history (before ++ [.push e])).1 = (history before).1)) ∧
    (∀ before rest, calls = before ++ .close :: rest →
      let later := answers.drop (before.length + 1)
      taken later = [] ∧ given later ++ q.events = (history before).1.events ∧
        q.dropped = (history before).1.dropped) ∧
    (∀ before rest, calls = before ++ .tryPop :: rest →
      (∀ e, answers[before.length]? = some (.gave e) ↔
        (history before).1.events.head? = some e) ∧
      (∀ failure, answers[before.length]? = some (.over failure) ↔
        failure = ended ∧ .close ∈ before ∧ (history before).1.events = [])) := by
  intro history q answers
  have hfollows := run_follows capacity policy calls
  obtain ⟨handed, waiting, lost, hdivides, hlost⟩ := hfollows.divided
  refine ⟨?_, ⟨handed ++ waiting, lost, hdivides.kept, hdivides.perm, ?_, hdivides.dropped_eq,
    hlost⟩, ?_, ?_, ?_⟩
  · rw [← hfollows.capacity_eq]
    exact hfollows.size_le
  · rw [List.map_append, hdivides.handed_eq, hdivides.waiting_eq]
  · rintro before e rest rfl
    have hbefore := run_follows capacity policy before
    have hanswer : answers[before.length]? = some ((history before).1.apply (.push e)).2 :=
      getElem?_run (new capacity policy) before (.push e) rest
    have hnext : (history (before ++ [.push e])).1 = ((history before).1.apply (.push e)).1 := by
      simp only [history, hbefore.run_eq_append (.push e)]
    constructor
    · intro hopen
      rw [← hbefore.closed_iff, Bool.not_eq_true] at hopen
      have hpush := apply_push_of_open hopen e
      rw [hanswer, hnext, hpush.1]
      exact ⟨rfl, fun hpolicy => hpush.2 (hbefore.policy_eq.trans hpolicy)⟩
    · intro hclosed
      have hpush := apply_push_of_closed (hbefore.closed_iff.mpr hclosed) e
      rw [hanswer, hnext]
      exact ⟨congrArg (fun outcome => some outcome.2) hpush, congrArg Prod.fst hpush⟩
  · rintro before rest rfl later
    have hlater : later = ((history before).1.close.run rest).2 :=
      drop_run (new capacity policy) before .close rest
    have hq : q = ((history before).1.close.run rest).1 := by
      simp only [q, history, run_append]
      rfl
    rw [hlater, hq]
    exact run_of_closed rfl rest
  · rintro before rest rfl
    have hbefore := run_follows capacity policy before
    have hanswer : answers[before.length]? = some ((history before).1.apply .tryPop).2 :=
      getElem?_run (new capacity policy) before .tryPop rest
    simp only [hanswer, Option.some.injEq]
    refine ⟨fun e => apply_tryPop_eq_gave, fun failure => ?_⟩
    rw [apply_tryPop_eq_over, hbefore.closed_iff]

end TelemetryBands.Queue
