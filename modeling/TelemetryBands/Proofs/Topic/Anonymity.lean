import TelemetryBands.Proofs.Topic.Listening

/-!
# Subscribers without names

Identifiers are issued by the registry for all topics together. What happens to the subscribers of a
topic does not depend on them: without their identifiers, subscribers are known by their places.
-/

namespace TelemetryBands

section Keyed

variable {α : Type} {key : α → SubscriptionId} {l : List α} {id : SubscriptionId}

/-- The first one with an identifier stands at the place of the identifier. -/
theorem find?_key_eq (key : α → SubscriptionId) (l : List α) (id : SubscriptionId) :
    l.find? (fun x => key x == id) = l[(l.map key).idxOf id]? := by
  induction l with
  | nil => rfl
  | cons x l ih =>
    rw [List.find?_cons, List.map_cons, List.idxOf_cons]
    cases hid : key x == id with
    | true => rfl
    | false => exact ih

/-- The first one with an identifier is taken from the place of the identifier. -/
theorem eraseP_key_eq (key : α → SubscriptionId) (l : List α) (id : SubscriptionId) :
    l.eraseP (fun x => key x == id) = l.eraseIdx ((l.map key).idxOf id) := by
  induction l with
  | nil => rfl
  | cons x l ih =>
    rw [List.eraseP_cons, List.map_cons, List.idxOf_cons]
    cases hid : key x == id with
    | true => rfl
    | false => exact congrArg (x :: ·) ih

/-- Where identifiers stand for one each, taking that one leaves the others. -/
theorem filter_key_eq (h : (l.map key).Nodup) (id : SubscriptionId) :
    l.filter (fun x => key x != id) = l.eraseIdx ((l.map key).idxOf id) := by
  rw [← eraseP_key_eq]
  induction l with
  | nil => rfl
  | cons x l ih =>
    obtain ⟨hhead, hrest⟩ := List.nodup_cons.mp h
    rw [List.eraseP_cons, List.filter_cons]
    cases hid : key x == id with
    | true =>
      have hothers : l.filter (fun y => key y != id) = l := by
        apply List.filter_eq_self.mpr
        intro y hy
        have hne : key y ≠ id := by
          intro heq
          exact hhead (beq_iff_eq.mp hid ▸ heq ▸ List.mem_map_of_mem hy)
        simpa using hne
      have hbne : (key x != id) = false := by rw [bne, hid]; rfl
      simp only [hbne, hothers, cond_true, Bool.false_eq_true, if_false]
    | false =>
      have hbne : (key x != id) = true := by rw [bne, hid]; rfl
      simp only [hbne, ih hrest, cond_false, if_true]

end Keyed

/-- A subscriber without a name. -/
def Subscriber.anonymous (s : Subscriber) : Subscriber :=
  { s with id := .nil }

namespace Dispatcher

variable {d : Dispatcher} {id : SubscriptionId}

/-- The subscribers without their names. -/
def anonymous (d : Dispatcher) : Dispatcher :=
  { d with
    subscribers := d.subscribers.map Subscriber.anonymous
    departed := d.departed.map Subscriber.anonymous }

/-- Closes and lets go the subscriber at a place. -/
def removeAt (d : Dispatcher) (place : Nat) : Dispatcher :=
  match d.subscribers[place]? with
  | none => d
  | some s =>
    { d with
      subscribers := d.subscribers.eraseIdx place
      departed := d.departed ++ [s.close] }

/-- The identifiers of the subscribers. -/
def ids (d : Dispatcher) : List SubscriptionId :=
  d.subscribers.map Subscriber.id

@[simp] theorem anonymous_dispatch (d : Dispatcher) (e : Event) :
    (d.dispatch e).1.anonymous = (d.anonymous.dispatch e).1 := by
  simp only [anonymous, dispatch_fst, List.map_map]
  rfl

theorem anonymous_dispatchAll (d : Dispatcher) (events : List Event) :
    (d.dispatchAll events).anonymous = d.anonymous.dispatchAll events := by
  unfold dispatchAll
  induction events generalizing d with
  | nil => rfl
  | cons e events ih => rw [List.foldl_cons, List.foldl_cons, ih, anonymous_dispatch]

theorem anonymous_add (d : Dispatcher) (id : SubscriptionId) (sink : Sink) :
    (d.add id sink).anonymous = d.anonymous.add .nil sink := by
  simp only [anonymous, add, List.map_append]
  rfl

theorem anonymous_changeSink (d : Dispatcher) (serial : Nat) (sink : Sink) :
    (d.changeSink serial sink).anonymous = d.anonymous.changeSink serial sink := by
  have hchange : ∀ s : Subscriber,
      (if s.serial = serial then { s with sink } else s).anonymous =
        if s.anonymous.serial = serial then { s.anonymous with sink } else s.anonymous := by
    intro s
    have hserial : s.anonymous.serial = s.serial := rfl
    rw [hserial]
    split <;> rfl
  simp only [anonymous, changeSink, List.map_map, Function.comp_def, hchange]

theorem anonymous_removeAt (d : Dispatcher) (place : Nat) :
    (d.removeAt place).anonymous = d.anonymous.removeAt place := by
  have hplace : d.anonymous.subscribers[place]? =
      d.subscribers[place]?.map Subscriber.anonymous := List.getElem?_map
  unfold removeAt
  rw [hplace]
  cases d.subscribers[place]? with
  | none => rfl
  | some s =>
    simp only [anonymous, Option.map_some, List.map_append, List.eraseIdx_map]
    rfl

/-- The subscriber of an identifier stands at its place. -/
theorem find?_eq_getElem? (d : Dispatcher) (id : SubscriptionId) :
    d.find? id = d.subscribers[d.ids.idxOf id]? :=
  find?_key_eq Subscriber.id d.subscribers id

/-- Ending a subscription takes the subscriber from its place. -/
theorem remove_eq_removeAt (d : Dispatcher) (id : SubscriptionId) :
    (d.remove id).1 = d.removeAt (d.ids.idxOf id) := by
  unfold remove removeAt
  rw [find?_eq_getElem?]
  cases d.subscribers[d.ids.idxOf id]? with
  | none => rfl
  | some s => simp only [eraseP_key_eq Subscriber.id, ids]

end Dispatcher

namespace Pipeline

variable {p : Pipeline} {call : Call}

/-- A topic whose subscribers have no names. -/
def anonymous (p : Pipeline) : Pipeline :=
  p.heardBy p.dispatcher.anonymous

/-- A topic works whatever the names of its subscribers are. -/
theorem apply_anonymous (p : Pipeline) (h : call.IsWork) :
    p.anonymous.apply call = ((p.apply call).1.anonymous, (p.apply call).2) := by
  rw [anonymous, p.apply_heardBy _ h, ← Dispatcher.anonymous_dispatchAll, ← dispatcher_apply h]
  rfl

theorem stats_anonymous (p : Pipeline) : p.anonymous.stats = p.stats := by
  have hlength : p.anonymous.dispatcher.subscribers.length = p.dispatcher.subscribers.length :=
    List.length_map _
  unfold stats
  rw [hlength]
  rfl

theorem save_anonymous (p : Pipeline) : p.anonymous.save = p.save := rfl

/-- An event shows the name and the endpoint of a topic. -/
def Signs (p : Pipeline) (e : Event) : Prop :=
  e.topic = p.name ∧ e.device = p.endpoint.qualifiedDevice ∧ e.point = p.endpoint.point

/-- The events of a topic show its name and its endpoint. -/
theorem signs_of_mem_advance {w : Millis} {e : Event} (he : e ∈ (p.advance w).2.events) :
    p.Signs e := by
  obtain ⟨-, c, -, state, kind, aggregate, -, rfl⟩ := exists_of_mem_advance he
  exact ⟨rfl, rfl, rfl⟩

theorem signs_of_mem_follow {t : Millis} {e : Event} (he : e ∈ (p.follow t).2.events) :
    p.Signs e := by
  have hseen : ∀ w, ∀ e ∈ ({ p with latestSeen := some (p.latestWith t) }.advance w).2.events,
      p.Signs e := fun w e he => by
    have hsigns := signs_of_mem_advance he
    exact hsigns
  exact p.follow_cases (motive := fun q => ∀ e ∈ q.2.events, p.Signs e) t
    (List.forall_mem_nil _) hseen e he

theorem signs_of_mem_ingest {s : Sample} {e : Event} (he : e ∈ (p.ingest s).2.2.events) :
    p.Signs e := by
  have hoffered : ∀ e ∈ ((p.offered s (p.countsWith s)).follow s.time).2.events,
      p.Signs e := fun e he => by
    have hsigns := signs_of_mem_follow he
    exact hsigns
  exact p.ingest_cases (motive := fun q => ∀ e ∈ q.2.2.events, p.Signs e) s
    (fun _ => List.forall_mem_nil _) (fun _ _ => List.forall_mem_nil _) (fun _ _ => hoffered) e he

theorem signs_of_mem_apply {e : Event} (he : e ∈ (p.apply call).2.2.events) : p.Signs e := by
  cases call with
  | ingest s => exact signs_of_mem_ingest he
  | advance w => exact signs_of_mem_advance he
  | load text =>
    simp only [apply] at he
    cases hload : p.load text <;> rw [hload] at he <;> cases he
  | _ => cases he

end Pipeline

end TelemetryBands
