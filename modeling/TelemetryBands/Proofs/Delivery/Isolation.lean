import Mathlib.Data.List.Nodup
import TelemetryBands.Delivery.Dispatcher

/-!
# Subscribers by themselves

A dispatcher serves its subscribers one after the other, in the order in which they came. A history
of calls notes every contact with a sink. What it notes about one subscriber is told by that
subscriber's own sink and stay: the events from its arrival to its removal, each once, and then the
end. The others, whether they take events or fail, have no part in it.
-/

namespace TelemetryBands

/-- What a dispatcher does to a sink. -/
inductive Contact where
  /-- It hands over an event, which the sink takes or not. -/
  | offer (e : Event) (took : Bool)
  | close
  deriving DecidableEq, Repr

namespace Dispatcher

/-- A call on a dispatcher, or something that happens between calls. -/
inductive Call where
  | add (id : SubscriptionId) (sink : Sink)
  | remove (id : SubscriptionId)
  | dispatch (e : Event)
  | closeAll
  /-- The sink of a subscriber changes: someone reads from a queue or closes it, or a receiver fails
  for other events than before. -/
  | changeSink (serial : Nat) (sink : Sink)

namespace Call

/-- Who subscribes with a call. -/
def newcomer? : Call → Option SubscriptionId
  | .add id _ => some id
  | _ => none

/-- The event that a call dispatches. -/
def event? : Call → Option Event
  | .dispatch e => some e
  | _ => none

/-- Whether a call lets a subscriber go. -/
def releases (id : SubscriptionId) : Call → Bool
  | .remove other => other == id
  | .closeAll => true
  | _ => false

/-- Who subscribes after a call, in the order of their subscriptions. -/
def seat (ids : List SubscriptionId) : Call → List SubscriptionId
  | .add id _ => ids ++ [id]
  | .remove id => ids.erase id
  | .closeAll => []
  | _ => ids

end Call

/-- Who subscribes after a list of calls, in the order of their subscriptions. -/
def attached (calls : List Call) : List SubscriptionId :=
  calls.foldl Call.seat []

/-- Makes one call, and notes its contacts in their order. -/
def perform (d : Dispatcher) : Call → Dispatcher × List (SubscriptionId × Contact)
  | .add id sink => (d.add id sink, [])
  | .remove id => ((d.remove id).1, (d.find? id).toList.map fun s => (s.id, .close))
  | .dispatch e =>
    ((d.dispatch e).1,
      (serve e d.subscribers).2.map fun delivery => (delivery.1, .offer e delivery.2))
  | .closeAll => (d.closeAll, d.subscribers.map fun s => (s.id, .close))
  | .changeSink serial sink => (d.changeSink serial sink, [])

/-- Makes a list of calls, and notes all contacts in their order. -/
def history (d : Dispatcher) : List Call → Dispatcher × List (SubscriptionId × Contact)
  | [] => (d, [])
  | call :: calls =>
    let (next, contacts) := d.perform call
    let (final, rest) := next.history calls
    (final, contacts ++ rest)

/-- The contacts with one subscriber. -/
def contactsOf (id : SubscriptionId) (contacts : List (SubscriptionId × Contact)) : List Contact :=
  contacts.filterMap fun contact => if contact.1 = id then some contact.2 else none

end Dispatcher

/-- What a sink by itself makes of the events of a list of calls. -/
def Sink.answers (serial : Nat) (sink : Sink) : List Dispatcher.Call → List (Event × Bool)
  | [] => []
  | .dispatch e :: calls => (e, (sink.deliver e).2) :: answers serial (sink.deliver e).1 calls
  | .changeSink n changed :: calls => answers serial (if serial = n then changed else sink) calls
  | _ :: calls => answers serial sink calls

/-- A sink answers for exactly the events that are dispatched. -/
theorem Sink.map_fst_answers (serial : Nat) (sink : Sink) (calls : List Dispatcher.Call) :
    (sink.answers serial calls).map Prod.fst = calls.filterMap Dispatcher.Call.event? := by
  induction calls generalizing sink with
  | nil => rfl
  | cons call calls ih =>
    cases call with
    | dispatch e => exact congrArg (e :: ·) (ih (sink.deliver e).1)
    | changeSink n changed => exact ih (if serial = n then changed else sink)
    | _ => exact ih sink

namespace Dispatcher

theorem history_cons (d : Dispatcher) (call : Call) (calls : List Call) :
    d.history (call :: calls) =
      (((d.perform call).1.history calls).1,
        (d.perform call).2 ++ ((d.perform call).1.history calls).2) := rfl

theorem history_append (d : Dispatcher) (before after : List Call) :
    d.history (before ++ after) =
      (((d.history before).1.history after).1,
        (d.history before).2 ++ ((d.history before).1.history after).2) := by
  induction before generalizing d with
  | nil => rfl
  | cons call before ih => simp only [List.cons_append, history_cons, ih, List.append_assoc]

@[simp] theorem contactsOf_append (id : SubscriptionId)
    (first second : List (SubscriptionId × Contact)) :
    contactsOf id (first ++ second) = contactsOf id first ++ contactsOf id second :=
  List.filterMap_append

/-- Nobody has contacts who is not among those that a list of contacts is about. -/
theorem contactsOf_eq_nil {id : SubscriptionId} {contacts : List (SubscriptionId × Contact)}
    (h : id ∉ contacts.map Prod.fst) : contactsOf id contacts = [] := by
  refine List.filterMap_eq_nil_iff.mpr fun contact hmem => if_neg fun heq => ?_
  exact h (heq ▸ List.mem_map_of_mem hmem)

end Dispatcher

namespace Subscriber

/-- A subscriber with another sink. -/
def withSink (s : Subscriber) (sink : Sink) : Subscriber :=
  { s with sink }

/-- A subscriber after a call that does not let it go. -/
def undergo (s : Subscriber) : Dispatcher.Call → Subscriber
  | .dispatch e => (s.deliver e).1
  | .changeSink serial sink => if s.serial = serial then s.withSink sink else s
  | _ => s

/-- What a subscriber by itself makes of the events of a list of calls. -/
def answers (s : Subscriber) (calls : List Dispatcher.Call) : List (Event × Bool) :=
  s.sink.answers s.serial calls

/-- What is on record of a subscriber after more events: it was offered these, and it failed for
those that its sink did not take. -/
structure Records (s later : Subscriber) (answers : List (Event × Bool)) : Prop where
  id_eq : later.id = s.id
  offered_eq : later.offered = s.offered ++ answers.map Prod.fst
  failures_eq : later.failures = s.failures + answers.countP fun answer => !answer.2
  closes_eq : later.closes = s.closes

theorem undergo_id (s : Subscriber) (call : Dispatcher.Call) : (s.undergo call).id = s.id := by
  cases call with
  | changeSink serial sink =>
    simp only [undergo]
    split <;> rfl
  | _ => rfl

/-- What a subscriber makes of events, call by call. -/
theorem answers_cons (s : Subscriber) (call : Dispatcher.Call) (calls : List Dispatcher.Call) :
    s.answers (call :: calls) = s.answers [call] ++ (s.undergo call).answers calls := by
  cases call with
  | changeSink serial sink =>
    simp only [answers, undergo, Sink.answers, List.nil_append]
    split <;> rfl
  | _ => rfl

theorem records_undergo (s : Subscriber) (call : Dispatcher.Call) :
    s.Records (s.undergo call) (s.answers [call]) := by
  cases call with
  | dispatch e =>
    refine ⟨rfl, rfl, ?_, rfl⟩
    simp only [undergo, deliver, answers, Sink.answers, List.countP_singleton]
    cases (s.sink.deliver e).2 <;> rfl
  | changeSink serial sink =>
    simp only [undergo, answers, Sink.answers]
    split <;> exact ⟨rfl, (List.append_nil _).symm, rfl, rfl⟩
  | _ => exact ⟨rfl, (List.append_nil _).symm, rfl, rfl⟩

/-- A list of calls puts on record what the subscriber makes of its events. -/
theorem records_foldl_undergo (s : Subscriber) (calls : List Dispatcher.Call) :
    s.Records (calls.foldl undergo s) (s.answers calls) := by
  induction calls generalizing s with
  | nil => exact ⟨rfl, (List.append_nil _).symm, rfl, rfl⟩
  | cons call calls ih =>
    have hfirst := s.records_undergo call
    have hrest := ih (s.undergo call)
    rw [List.foldl_cons, answers_cons]
    constructor
    · rw [hrest.id_eq, hfirst.id_eq]
    · rw [hrest.offered_eq, hfirst.offered_eq, List.map_append, List.append_assoc]
    · rw [hrest.failures_eq, hfirst.failures_eq, List.countP_append, Nat.add_assoc]
    · rw [hrest.closes_eq, hfirst.closes_eq]

end Subscriber

namespace Dispatcher

variable {d : Dispatcher} {s : Subscriber} {id : SubscriptionId} {call : Call} {calls : List Call}

theorem subscribers_remove (d : Dispatcher) (id : SubscriptionId) :
    (d.remove id).1.subscribers = d.subscribers.eraseP fun s => s.id == id := by
  unfold remove
  cases hfind : d.find? id with
  | none =>
    have hnone := List.find?_eq_none.mp hfind
    exact (List.eraseP_of_forall_not hnone).symm
  | some s => rfl

/-- What is noted about an event that is dispatched. -/
theorem perform_dispatch_snd (d : Dispatcher) (e : Event) :
    (d.perform (.dispatch e)).2 =
      d.subscribers.map fun s => (s.id, .offer e (s.deliver e).2) := by
  rw [perform, serve_eq, List.map_map]
  rfl

/-- Every event goes to the subscribers in the order of their subscriptions. -/
theorem map_fst_perform_dispatch (d : Dispatcher) (e : Event) :
    (d.perform (.dispatch e)).2.map Prod.fst = d.subscribers.map Subscriber.id := by
  rw [perform_dispatch_snd, List.map_map]
  rfl

/-- Who subscribes after a call. -/
theorem ids_perform (d : Dispatcher) (call : Call) :
    (d.perform call).1.subscribers.map Subscriber.id =
      call.seat (d.subscribers.map Subscriber.id) := by
  cases call with
  | add id sink => exact List.map_append
  | remove id =>
    simp only [perform, subscribers_remove, Call.seat, List.erase_eq_eraseP', List.eraseP_map]
    rfl
  | dispatch e =>
    simp only [perform, subscribers_dispatch, List.map_map, Call.seat]
    rfl
  | closeAll => rfl
  | changeSink serial sink =>
    have hid : ∀ s : Subscriber, (if s.serial = serial then { s with sink } else s).id = s.id := by
      intro s
      split <;> rfl
    simp only [perform, changeSink, List.map_map, Function.comp_def, hid, Call.seat]

/-- Nobody subscribes twice, now or by the calls that follow. -/
def Distinct (d : Dispatcher) (calls : List Call) : Prop :=
  (d.subscribers.map Subscriber.id ++ calls.filterMap Call.newcomer?).Nodup

namespace Distinct

theorem ids (h : d.Distinct calls) : (d.subscribers.map Subscriber.id).Nodup :=
  (List.nodup_append.mp h).1

theorem perform (h : d.Distinct (call :: calls)) : (d.perform call).1.Distinct calls := by
  unfold Distinct at *
  rw [ids_perform]
  cases call with
  | add id sink =>
    rw [Call.seat, List.append_assoc]
    exact h
  | remove id => exact h.sublist (List.erase_sublist.append_right _)
  | closeAll => exact h.sublist (List.sublist_append_right _ _)
  | dispatch e | changeSink serial sink => exact h

theorem history {before after : List Call} (h : d.Distinct (before ++ after)) :
    (d.history before).1.Distinct after := by
  induction before generalizing d with
  | nil => exact h
  | cons call before ih => exact ih h.perform

end Distinct

/-- If each subscriber has one contact, everyone has their own. -/
theorem contactsOf_map {subscribers : List Subscriber} (hmem : s ∈ subscribers)
    (hids : (subscribers.map Subscriber.id).Nodup) (f : Subscriber → Contact) :
    contactsOf s.id (subscribers.map fun s => (s.id, f s)) = [f s] := by
  induction subscribers with
  | nil => cases hmem
  | cons head others ih =>
    rw [List.map_cons, List.nodup_cons] at hids
    have hsplit : contactsOf s.id ((head :: others).map fun s => (s.id, f s)) =
        contactsOf s.id [(head.id, f head)] ++
          contactsOf s.id (others.map fun s => (s.id, f s)) := contactsOf_append _ [_] _
    rw [hsplit]
    rcases List.mem_cons.mp hmem with rfl | hmem
    · have hnone : s.id ∉ (others.map fun s => (s.id, f s)).map Prod.fst := by
        rw [List.map_map]
        exact hids.1
      rw [contactsOf_eq_nil hnone]
      simp [contactsOf]
    · have hne : head.id ≠ s.id := fun heq => hids.1 (heq ▸ List.mem_map_of_mem hmem)
      rw [ih hmem hids.2]
      simp [contactsOf, hne]

theorem of_find?_eq_some (h : d.find? id = some s) : s ∈ d.subscribers ∧ s.id = id := by
  unfold find? at h
  exact ⟨List.mem_of_find?_eq_some h, by simpa using List.find?_some h⟩

/-- The subscriber with an identifier, if nobody else has it. -/
theorem find?_eq_some (hmem : s ∈ d.subscribers) (hids : (d.subscribers.map Subscriber.id).Nodup) :
    d.find? s.id = some s := by
  obtain ⟨found, hfound⟩ : ∃ found, d.find? s.id = some found :=
    Option.isSome_iff_exists.mp (List.find?_isSome.mpr ⟨s, hmem, beq_self_eq_true _⟩)
  obtain ⟨hfoundMem, hid⟩ := of_find?_eq_some hfound
  rw [hfound, List.inj_on_of_nodup_map hids hfoundMem hmem hid]

theorem find?_eq_none (h : id ∉ d.subscribers.map Subscriber.id) : d.find? id = none := by
  refine List.find?_eq_none.mpr fun s hs hid => h ?_
  rw [← beq_iff_eq.mp hid]
  exact List.mem_map_of_mem hs

/-- A call that does not let a subscriber go leaves it in its place, and its contacts are the events
that are dispatched. -/
theorem perform_of_stays (hmem : s ∈ d.subscribers)
    (hids : (d.subscribers.map Subscriber.id).Nodup) (hstays : call.releases s.id = false) :
    s.undergo call ∈ (d.perform call).1.subscribers ∧
      contactsOf s.id (d.perform call).2 =
        (s.answers [call]).map fun answer => .offer answer.1 answer.2 := by
  cases call with
  | add id sink => exact ⟨List.mem_append_left _ hmem, rfl⟩
  | remove id =>
    have hne : s.id ≠ id := fun heq => by simp [Call.releases, heq] at hstays
    constructor
    · rw [perform, subscribers_remove]
      exact (List.mem_eraseP_of_neg (beq_eq_false_iff_ne.mpr hne ▸ Bool.false_ne_true)).mpr hmem
    · refine contactsOf_eq_nil fun hcontact => ?_
      simp only [perform, List.map_map, List.mem_map, Option.mem_toList] at hcontact
      obtain ⟨found, hfound, hid⟩ := hcontact
      exact hne (hid.symm.trans (of_find?_eq_some hfound).2)
  | dispatch e =>
    constructor
    · rw [perform, subscribers_dispatch]
      exact List.mem_map_of_mem hmem
    · rw [perform_dispatch_snd, contactsOf_map hmem hids]
      rfl
  | closeAll => cases hstays
  | changeSink serial sink => exact ⟨List.mem_map_of_mem hmem, rfl⟩

/-- A call that lets a subscriber go closes its sink, once. -/
theorem perform_of_releases (hmem : s ∈ d.subscribers)
    (hids : (d.subscribers.map Subscriber.id).Nodup) (hgoes : call.releases s.id = true) :
    s.close ∈ (d.perform call).1.departed ∧
      s.id ∉ (d.perform call).1.subscribers.map Subscriber.id ∧
      contactsOf s.id (d.perform call).2 = [.close] := by
  rw [ids_perform]
  cases call with
  | remove id =>
    obtain rfl := beq_iff_eq.mp hgoes
    have hfind := find?_eq_some hmem hids
    refine ⟨?_, hids.not_mem_erase, ?_⟩
    · simp [perform, remove, hfind]
    · simp [perform, hfind, contactsOf]
  | closeAll =>
    refine ⟨List.mem_append_right _ (List.mem_map_of_mem hmem), List.not_mem_nil, ?_⟩
    exact contactsOf_map hmem hids fun _ => .close
  | _ => cases hgoes

/-- Nobody has contacts who does not subscribe. -/
theorem perform_of_absent (habsent : id ∉ d.subscribers.map Subscriber.id)
    (hnew : call.newcomer? ≠ some id) :
    id ∉ (d.perform call).1.subscribers.map Subscriber.id ∧
      contactsOf id (d.perform call).2 = [] := by
  rw [ids_perform]
  cases call with
  | add other sink =>
    refine ⟨?_, rfl⟩
    rw [Call.seat, List.mem_append, List.mem_singleton]
    rintro (hmem | rfl)
    · exact habsent hmem
    · exact hnew rfl
  | remove other =>
    refine ⟨fun hmem => habsent (List.mem_of_mem_erase hmem), contactsOf_eq_nil fun hmem => ?_⟩
    simp only [perform, List.map_map, List.mem_map, Option.mem_toList] at hmem
    obtain ⟨found, hfound, rfl⟩ := hmem
    exact habsent (List.mem_map_of_mem (of_find?_eq_some hfound).1)
  | dispatch e =>
    refine ⟨habsent, contactsOf_eq_nil ?_⟩
    rw [map_fst_perform_dispatch]
    exact habsent
  | closeAll =>
    refine ⟨List.not_mem_nil, contactsOf_eq_nil ?_⟩
    simp only [perform, List.map_map]
    exact habsent
  | changeSink serial sink => exact ⟨habsent, rfl⟩

theorem newcomers_subset_cons (call : Call) (calls : List Call) :
    calls.filterMap Call.newcomer? ⊆ (call :: calls).filterMap Call.newcomer? :=
  ((List.sublist_cons_self call calls).filterMap Call.newcomer?).subset

/-- Nor does a history that nobody of that name comes into. -/
theorem history_of_absent (habsent : id ∉ d.subscribers.map Subscriber.id)
    (hnew : id ∉ calls.filterMap Call.newcomer?) :
    id ∉ (d.history calls).1.subscribers.map Subscriber.id ∧
      contactsOf id (d.history calls).2 = [] := by
  induction calls generalizing d with
  | nil => exact ⟨habsent, rfl⟩
  | cons call calls ih =>
    have hcall : call.newcomer? ≠ some id :=
      fun heq => hnew (List.mem_filterMap.mpr ⟨call, List.mem_cons_self, heq⟩)
    have hcalls : id ∉ calls.filterMap Call.newcomer? :=
      fun hmem => hnew (newcomers_subset_cons call calls hmem)
    obtain ⟨habsent', hnone⟩ := perform_of_absent habsent hcall
    obtain ⟨hfinal, hrest⟩ := ih habsent' hcalls
    rw [history_cons, contactsOf_append, hnone, hrest]
    exact ⟨hfinal, rfl⟩

/-- The record of someone who has left is kept, whatever becomes of the sink. -/
theorem departed_perform (hmem : s ∈ d.departed) (call : Call) :
    ∃ sink, s.withSink sink ∈ (d.perform call).1.departed := by
  cases call with
  | remove id =>
    refine ⟨s.sink, ?_⟩
    simp only [perform, remove]
    cases d.find? id with
    | none => exact hmem
    | some other => exact List.mem_append_left _ hmem
  | closeAll => exact ⟨s.sink, List.mem_append_left _ hmem⟩
  | changeSink serial sink =>
    by_cases hserial : s.serial = serial
    · exact ⟨sink, List.mem_map.mpr ⟨s, hmem, if_pos hserial⟩⟩
    · exact ⟨s.sink, List.mem_map.mpr ⟨s, hmem, if_neg hserial⟩⟩
  | add id sink | dispatch e => exact ⟨s.sink, hmem⟩

theorem departed_history (hmem : s ∈ d.departed) (calls : List Call) :
    ∃ sink, s.withSink sink ∈ (d.history calls).1.departed := by
  induction calls generalizing d s with
  | nil => exact ⟨s.sink, hmem⟩
  | cons call calls ih =>
    obtain ⟨sink, hnext⟩ := departed_perform hmem call
    obtain ⟨sink', hfinal⟩ := ih hnext
    exact ⟨sink', hfinal⟩

/-- The whole life of a subscriber: until it is let go, it answers for the events that are
dispatched, and when it is let go, its sink is closed. -/
theorem history_of_present (hmem : s ∈ d.subscribers) (hdistinct : d.Distinct calls) :
    let stay := calls.takeWhile fun call => !call.releases s.id
    let last := stay.foldl Subscriber.undergo s
    let gone := calls.any (Call.releases s.id)
    contactsOf s.id (d.history calls).2 =
        ((s.answers stay).map fun answer => .offer answer.1 answer.2) ++
          (if gone then [.close] else []) ∧
      (gone = false → last ∈ (d.history calls).1.subscribers) ∧
      (gone = true → s.id ∉ (d.history calls).1.subscribers.map Subscriber.id ∧
        ∃ sink, last.close.withSink sink ∈ (d.history calls).1.departed) := by
  induction calls generalizing d s with
  | nil => exact ⟨rfl, fun _ => hmem, nofun⟩
  | cons call calls ih =>
    rw [List.takeWhile_cons, List.any_cons, history_cons, contactsOf_append]
    cases hgoes : call.releases s.id with
    | false =>
      obtain ⟨hnext, hcontacts⟩ := perform_of_stays hmem hdistinct.ids hgoes
      have hrest := ih hnext hdistinct.perform
      rw [s.undergo_id] at hrest
      refine ⟨?_, hrest.2⟩
      rw [hcontacts, hrest.1, Bool.not_false, if_pos rfl,
        s.answers_cons call (calls.takeWhile _), List.map_append, List.append_assoc, Bool.false_or]
    | true =>
      obtain ⟨hleft, habsent, hcontacts⟩ := perform_of_releases hmem hdistinct.ids hgoes
      have hnew : s.id ∉ calls.filterMap Call.newcomer? := by
        intro hagain
        have hlater := newcomers_subset_cons call calls hagain
        exact (List.nodup_append.mp hdistinct).2.2 _ (List.mem_map_of_mem hmem) _ hlater rfl
      obtain ⟨hfinal, hnone⟩ := history_of_absent habsent hnew
      rw [hcontacts, hnone]
      exact ⟨rfl, nofun, fun _ => ⟨hfinal, departed_history hleft calls⟩⟩

/-- Subscribers are attached in the order of their subscriptions. -/
theorem ids_history (d : Dispatcher) (calls : List Call) :
    (d.history calls).1.subscribers.map Subscriber.id =
      calls.foldl Call.seat (d.subscribers.map Subscriber.id) := by
  induction calls generalizing d with
  | nil => rfl
  | cons call calls ih => rw [history_cons, ih, ids_perform, List.foldl_cons]

theorem attached_sublist (calls : List Call) :
    (attached calls).Sublist (calls.filterMap Call.newcomer?) := by
  have hfrom : ∀ ids : List SubscriptionId,
      (calls.foldl Call.seat ids).Sublist (ids ++ calls.filterMap Call.newcomer?) := by
    induction calls with
    | nil => exact fun ids => List.sublist_append_left ids []
    | cons call calls ih =>
      intro ids
      refine (ih (call.seat ids)).trans ?_
      cases call with
      | add id sink =>
        rw [Call.seat, List.append_assoc]
        exact List.Sublist.refl _
      | remove id => exact List.erase_sublist.append_right _
      | closeAll => exact List.sublist_append_right _ _
      | dispatch e | changeSink serial sink => exact List.Sublist.refl _
  exact hfrom []

/-- The number of a subscriber is how many came before. -/
theorem nextSerial_history (d : Dispatcher) (calls : List Call) :
    (d.history calls).1.nextSerial =
      d.nextSerial + (calls.filterMap Call.newcomer?).length := by
  induction calls generalizing d with
  | nil => rfl
  | cons call calls ih =>
    rw [history_cons, ih]
    cases call with
    | add id sink =>
      simp only [perform, add, Call.newcomer?, List.filterMap_cons, List.length_cons]
      omega
    | remove id =>
      simp only [perform, remove, Call.newcomer?, List.filterMap_cons]
      cases d.find? id <;> rfl
    | _ => rfl

/-- Every subscriber takes an event or fails. -/
theorem delivered_add_failed (d : Dispatcher) (e : Event) :
    (d.dispatch e).2.delivered + (d.dispatch e).2.failed = d.subscribers.length := by
  have hcount := List.length_eq_countP_add_countP
    (fun delivery : SubscriptionId × Bool => delivery.2) (l := (serve e d.subscribers).2)
  have hlength : (serve e d.subscribers).2.length = d.subscribers.length := by
    rw [serve_eq, List.length_map]
  rw [← hlength, hcount]
  simp only [dispatch, Bool.not_eq_true, Bool.decide_eq_false]

/-- What a history says about a subscriber that made something of some events and is gone or not:
the contacts with its sink, its record, and the failures that are shown. -/
structure Served (outcome : Dispatcher × List (SubscriptionId × Contact)) (id : SubscriptionId)
    (answers : List (Event × Bool)) (gone : Bool) : Prop where
  contacts_eq : contactsOf id outcome.2 =
    (answers.map fun answer => .offer answer.1 answer.2) ++ (if gone then [.close] else [])
  recorded : ∃ s ∈ outcome.1.everyone, s.id = id ∧ s.offered = answers.map Prod.fst ∧
    s.failures = (answers.countP fun answer => !answer.2) ∧ s.closes = if gone then 1 else 0
  failures_eq : outcome.1.failures? id =
    if gone then none else some (answers.countP fun answer => !answer.2)

/-- Whoever comes is served for a stay of its own. -/
theorem served_of_newcomer {sink : Sink} (hdistinct : d.Distinct (.add id sink :: calls)) :
    Served (d.history (.add id sink :: calls)) id
      (sink.answers d.nextSerial (calls.takeWhile fun call => !call.releases id))
      (calls.any (Call.releases id)) := by
  let s : Subscriber := ⟨id, d.nextSerial, sink, [], 0, 0⟩
  have hmem : s ∈ (d.add id sink).subscribers := List.mem_append_right _ List.mem_cons_self
  have hlater : (d.add id sink).Distinct calls := hdistinct.perform
  have hhistory : d.history (.add id sink :: calls) = (d.add id sink).history calls := rfl
  obtain ⟨hcontacts, hstays, hleaves⟩ := history_of_present hmem hlater
  obtain ⟨hid, hoffered, hfailures, hcloses⟩ :=
    s.records_foldl_undergo (calls.takeWhile fun call => !call.releases id)
  have hfailures := hfailures.trans (Nat.zero_add _)
  have hsid : s.id = id := rfl
  rw [hsid] at hcontacts
  rw [hhistory]
  cases hgone : calls.any (Call.releases id) with
  | false =>
    have hids : ((d.add id sink).history calls).1.Distinct [] := by
      refine Distinct.history ?_
      rw [List.append_nil]
      exact hlater
    have hfind := find?_eq_some (hstays hgone) hids.ids
    rw [hid] at hfind
    rw [hgone] at hcontacts
    refine ⟨hcontacts, ⟨_, List.mem_append_right _ (hstays hgone), hid, hoffered, hfailures,
      hcloses⟩, ?_⟩
    · rw [failures?, hfind, Option.map_some, hfailures]
      rfl
  | true =>
    obtain ⟨habsent, changed, hdeparted⟩ := hleaves hgone
    rw [hgone] at hcontacts
    refine ⟨hcontacts, ⟨_, List.mem_append_left _ hdeparted, hid, hoffered, hfailures,
      congrArg (· + 1) hcloses⟩, ?_⟩
    · rw [failures?, find?_eq_none habsent]
      rfl

/-- An event that puts a topic into a state. -/
def eventInto (state : UInt32) : Event :=
  ⟨"t", state, 1.0, 0, 1000, 1000, "boiler", "pressure", .transition⟩

/-- Three subscribers: one that always fails and leaves first, one that fails for a single state
until it changes its mind, and a queue that is full with one event. -/
def mixedCompany : List Call :=
  [.add ⟨1⟩ (.receiver fun _ => true), .add ⟨2⟩ (.receiver fun e => e.state == 7),
    .dispatch (eventInto 3), .add ⟨3⟩ (.queue (.new 1 .dropOldest)), .dispatch (eventInto 7),
    .remove ⟨1⟩, .changeSink 1 (.receiver fun _ => false), .dispatch (eventInto 7), .closeAll,
    .dispatch (eventInto 3)]

end Dispatcher

end TelemetryBands
