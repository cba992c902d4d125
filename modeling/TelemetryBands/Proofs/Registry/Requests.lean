import TelemetryBands.Proofs.Registry.Errands

/-!
# Every call comes down to errands

A subscriber that comes, goes or reads is an errand for its own topic and none for the others.
Together with the work of topics this says what every call leaves of a topic.
-/

namespace TelemetryBands.Registry

variable {r : Registry} {name : String} {p q : Pipeline} {t : Part} {id : SubscriptionId}

theorem part_putTopic (hp : r.topic? name = some p) (hq : q.name = name) :
    (r.putTopic q).part name =
      some ⟨q.anonymous, (r.entriesOf name).map Subscription.queued⟩ := by
  have hput : (r.putTopic q).topic? name = some q := by
    rw [topic?_putTopic hp, if_pos hq.symm]
  exact part_of_some hput

theorem part_putTopic_of_ne (hpart : r.part name = some t) (hq : q.name ≠ name) :
    (r.putTopic q).part name = some t := by
  obtain ⟨p, hp, rfl⟩ := part_eq_some hpart
  have hput : (r.putTopic q).topic? name = some p := by
    rw [topic?_putTopic hp, if_neg (Ne.symm hq)]
  exact part_of_some hput

/-- A subscriber that comes is an errand for its topic. -/
theorem part_attach (hpart : r.part name = some t) (topic : String) (sink : Sink) (queued : Bool) :
    (r.attach topic sink queued).1.part name =
      some (t.performAll (if topic = name then [.enrol sink queued] else [])).1 := by
  obtain ⟨p, hp, ht⟩ := part_eq_some hpart
  by_cases htopic : topic = name
  · have hattach := attach_of_some hp sink queued
    have hput : (r.putTopic (p.subscribe (.issue r.issued) sink)).topic? name =
        some (p.subscribe (.issue r.issued) sink) := by
      have hname : name = (p.subscribe (.issue r.issued) sink).name := (mem_of_topic? hp).2.symm
      rw [topic?_putTopic hp, if_pos hname]
    have hentries : (r.attach name sink queued).1.entriesOf name =
        r.entriesOf name ++ [⟨.issue r.issued, name, queued⟩] := by
      rw [hattach, entriesOf, List.filter_append]
      simp [entriesOf]
    have hfind : (r.attach name sink queued).1.topic? name =
        some (p.subscribe (.issue r.issued) sink) := by
      rw [hattach]
      exact hput
    have hanonymous : (p.subscribe (.issue r.issued) sink).anonymous =
        p.anonymous.subscribe .nil sink := by
      have hadd := p.dispatcher.anonymous_add (.issue r.issued) sink
      exact congrArg p.heardBy hadd
    rw [if_pos htopic, htopic, part_of_some hfind, hentries, List.map_append, ht, hanonymous]
    rfl
  · rw [if_neg htopic]
    cases hother : r.topic? topic with
    | none =>
      rw [attach_of_none hother]
      exact hpart
    | some other =>
      have hname : (other.subscribe (.issue r.issued) sink).name ≠ name := by
        intro heq
        exact htopic ((mem_of_topic? hother).2.symm.trans heq)
      have hput := part_putTopic_of_ne hpart hname
      refine Eq.trans (part_congr ?_ ?_) hput
      · rw [attach_of_some hother]
        rfl
      · rw [attach_of_some hother, entriesOf, List.filter_append]
        simp [entriesOf, putTopic, htopic]

/-- Identifiers of subscriptions are looked up. -/
theorem subscription?_eq_some_iff (h : r.tables.Consistent) {s : Subscription} :
    r.subscription? id = some s ↔ s ∈ r.subscriptions ∧ s.id = id := by
  constructor
  · intro hfind
    exact ⟨List.mem_of_find?_eq_some hfind, by simpa using List.find?_some hfind⟩
  · rintro ⟨hs, rfl⟩
    cases hfind : r.subscription? s.id with
    | none =>
      have hnot := List.find?_eq_none.mp hfind s hs
      simp at hnot
    | some s' =>
      have hid : s'.id = s.id := by simpa using List.find?_some hfind
      rw [h.eq_of_id (List.mem_of_find?_eq_some hfind) hs hid]

theorem mem_idsOf_iff (h : r.tables.Consistent) :
    id ∈ r.idsOf name ↔ ∃ s, r.subscription? id = some s ∧ s.topic = name := by
  simp only [idsOf, entriesOf, List.mem_map, List.mem_filter, beq_iff_eq,
    subscription?_eq_some_iff h]
  constructor
  · rintro ⟨s, ⟨hs, htopic⟩, hid⟩
    exact ⟨s, ⟨hs, hid⟩, htopic⟩
  · rintro ⟨s, ⟨hs, hid⟩, htopic⟩
    exact ⟨s, ⟨hs, htopic⟩, hid⟩

theorem entriesOf_forget (r : Registry) (id : SubscriptionId) (name : String) :
    (r.forget id).entriesOf name = (r.entriesOf name).filter fun s => s.id != id := by
  simp only [entriesOf, forget, List.filter_filter]
  apply List.filter_congr
  intro s _
  exact Bool.and_comm _ _

/-- A subscriber that goes is an errand for its topic. -/
theorem part_unsubscribe (h : r.tables.Consistent) (hpart : r.part name = some t)
    (id : SubscriptionId) :
    (r.unsubscribe id).1.part name = some (t.performAll
      (if id ∈ r.idsOf name then [.release ((r.idsOf name).idxOf id)] else [])).1 := by
  obtain ⟨p, hp, ht⟩ := part_eq_some hpart
  have hiff : id ∈ r.idsOf name ↔ _ := mem_idsOf_iff h
  cases hentry : r.subscription? id with
  | none =>
    have hnot : id ∉ r.idsOf name := by simp [hiff, hentry]
    rw [unsubscribe_of_none hentry, if_neg hnot]
    exact hpart
  | some s =>
    rw [unsubscribe_of_some hentry]
    by_cases htopic : s.topic = name
    · have hforget : (r.forget id).topic? s.topic = some p := by rw [htopic]; exact hp
      have hname : (p.unsubscribe id).1.name = s.topic := (mem_of_topic? hforget).2
      have hanonymous : (p.unsubscribe id).1.anonymous =
          p.anonymous.heardBy (p.anonymous.dispatcher.removeAt ((r.idsOf name).idxOf id)) := by
        have hremove : (p.dispatcher.remove id).1.anonymous =
            p.dispatcher.anonymous.removeAt ((r.idsOf name).idxOf id) := by
          rw [Dispatcher.remove_eq_removeAt, Dispatcher.anonymous_removeAt, ids_eq_idsOf h hp]
        exact congrArg p.heardBy hremove
      have hqueued : ((r.forget id).entriesOf name).map Subscription.queued =
          ((r.entriesOf name).map Subscription.queued).eraseIdx ((r.idsOf name).idxOf id) := by
        rw [entriesOf_forget, filter_key_eq (nodup_idsOf h name), List.eraseIdx_map]
        rfl
      have hput := part_putTopic hforget hname
      rw [htopic] at hput
      rw [if_pos (hiff.mpr ⟨s, hentry, htopic⟩), hforget]
      simp only [hput, hanonymous, hqueued, ht]
      rfl
    · have hentries : (r.forget id).entriesOf name = r.entriesOf name := by
        rw [entriesOf_forget, List.filter_eq_self]
        intro s' hs'
        obtain ⟨hmem, hs'topic⟩ := List.mem_filter.mp hs'
        have hne : s'.id ≠ id := by
          intro hid
          have hsame := hentry.symm.trans ((subscription?_eq_some_iff h).mpr ⟨hmem, hid⟩)
          rw [Option.some.inj hsame] at htopic
          exact htopic (by simpa using hs'topic)
        simpa using hne
      have hsame : (r.forget id).topic? name = r.topic? name := rfl
      have hforget := (part_congr hsame hentries).trans hpart
      have hnot : id ∉ r.idsOf name := by simp [hiff, hentry, htopic]
      rw [if_neg hnot]
      cases hother : (r.forget id).topic? s.topic with
      | none => exact hforget
      | some other =>
        have hname : (other.unsubscribe id).1.name ≠ name := by
          intro heq
          exact htopic ((mem_of_topic? hother).2.symm.trans heq)
        exact part_putTopic_of_ne hforget hname

/-- The subscription of an identifier stands at its place among those of its topic. -/
theorem getElem?_entriesOf (h : r.tables.Consistent) (hid : id ∈ r.idsOf name) :
    ∃ entry, r.subscription? id = some entry ∧ entry.topic = name ∧
      (r.entriesOf name)[(r.idsOf name).idxOf id]? = some entry := by
  obtain ⟨entry, hentry, htopic⟩ := (mem_idsOf_iff h).mp hid
  obtain ⟨hmem, heq⟩ := (subscription?_eq_some_iff h).mp hentry
  refine ⟨entry, hentry, htopic, ?_⟩
  rw [idsOf, ← find?_key_eq Subscription.id]
  cases hfind : (r.entriesOf name).find? fun s => s.id == id with
  | none =>
    have hin : entry ∈ r.entriesOf name := List.mem_filter.mpr ⟨hmem, by simpa using htopic⟩
    have hnot := List.find?_eq_none.mp hfind entry hin
    simp [heq] at hnot
  | some other =>
    have hother : other.id = id := by simpa using List.find?_some hfind
    have hin := List.mem_of_mem_filter (List.mem_of_find?_eq_some hfind)
    rw [h.eq_of_id hin hmem (hother.trans heq.symm)]

/-- The subscriber of an identifier stands at its place as well. -/
theorem find?_of_mem_idsOf (h : r.tables.Consistent) (hp : r.topic? name = some p)
    (hid : id ∈ r.idsOf name) :
    ∃ s, p.dispatcher.find? id = some s ∧
      p.dispatcher.subscribers[(r.idsOf name).idxOf id]? = some s := by
  rw [← ids_eq_idsOf h hp] at hid ⊢
  rw [← Dispatcher.find?_eq_getElem?]
  obtain ⟨s, hs, hsid⟩ := List.mem_map.mp hid
  cases hfind : p.dispatcher.find? id with
  | none =>
    have hnot := List.find?_eq_none.mp hfind s hs
    simp [hsid] at hnot
  | some s => exact ⟨s, rfl, rfl⟩

/-- What is read for a subscriber of a topic is the queue at its place. -/
theorem queueOf_eq (h : r.tables.Consistent) (hp : r.topic? name = some p)
    (hpart : r.part name = some t) (hid : id ∈ r.idsOf name) :
    (t.queueAt ((r.idsOf name).idxOf id) = none ∧ r.queueOf id = .error (notQueued id)) ∨
      ∃ s queue, t.queueAt ((r.idsOf name).idxOf id) = some (s.anonymous, queue) ∧
        r.queueOf id = .ok (p, s, queue) := by
  obtain ⟨p', hp', ht⟩ := part_eq_some hpart
  obtain rfl : p' = p := Option.some.inj (hp'.symm.trans hp)
  -- The tables agree, so the subscription has its topic, and the topic its subscriber.
  obtain ⟨entry, hentry, htopic, hplace⟩ := getElem?_entriesOf h hid
  obtain ⟨s, hfind, hsubscriber⟩ := find?_of_mem_idsOf h hp hid
  have hqueued : t.queued[(r.idsOf name).idxOf id]? = some entry.queued := by
    rw [ht, List.getElem?_map, hplace, Option.map_some]
  have hanonymous : t.topic.dispatcher.subscribers[(r.idsOf name).idxOf id]? =
      some s.anonymous := by
    rw [ht]
    exact List.getElem?_map.trans (congrArg (Option.map Subscriber.anonymous) hsubscriber)
  have hsink : s.anonymous.sink = s.sink := rfl
  simp only [Part.queueAt, queueOf, hqueued, hanonymous, hentry, htopic, hp, hfind, hsink,
    Option.bind_some]
  cases entry.queued with
  | false => simp
  | true => cases s.sink.queue? <;> simp

/-- The queue of a subscriber after a message was read from it. -/
theorem part_putQueue (hp : r.topic? name = some p) (hpart : r.part name = some t)
    (s : Subscriber) (queue : Queue) :
    (r.putQueue p s queue).part name = some { t with
      topic := t.topic.heardBy (t.topic.dispatcher.changeSink s.serial (.queue queue)) } := by
  obtain ⟨p', hp', rfl⟩ := part_eq_some hpart
  obtain rfl : p' = p := Option.some.inj (hp'.symm.trans hp)
  have hname : (p'.heardBy (p'.dispatcher.changeSink s.serial (.queue queue))).name = name :=
    (mem_of_topic? hp).2
  have hchange := p'.dispatcher.anonymous_changeSink s.serial (.queue queue)
  refine (part_putTopic hp hname).trans ?_
  simp only [Pipeline.anonymous, Pipeline.heardBy, hchange]

/-- A message that is read, without the words of a failure. -/
def reading (answer : Except Failure (Option Event)) : Except Failure.Kind (Option Event) :=
  answer.mapError Failure.kind

/-- Reading with waiting is an errand for the topic of the subscriber. -/
theorem serves_next (h : r.tables.Consistent) (hpart : r.part name = some t)
    (hid : id ∈ r.idsOf name) :
    (r.next id).1.part name = some (t.read ((r.idsOf name).idxOf id) true).1 ∧
      reading ((r.next id).2.map some) = (t.read ((r.idsOf name).idxOf id) true).2 := by
  obtain ⟨p, hp, -⟩ := part_eq_some hpart
  rcases queueOf_eq h hp hpart hid with ⟨hnone, herror⟩ | ⟨s, queue, hsome, hok⟩
  · simp only [next, Part.read, hnone, herror]
    exact ⟨hpart, rfl⟩
  · obtain ⟨rest, answer, htry⟩ : ∃ rest answer, queue.tryPop = (rest, answer) := ⟨_, _, rfl⟩
    have hput := part_putQueue hp hpart s rest
    rcases answer with failure | _ | e <;>
      simp only [next, Part.read, Queue.pop, hsome, hok, htry] <;>
      exact ⟨hput, rfl⟩

/-- Reading without waiting is an errand for the topic of the subscriber. -/
theorem serves_tryNext (h : r.tables.Consistent) (hpart : r.part name = some t)
    (hid : id ∈ r.idsOf name) :
    (r.tryNext id).1.part name = some (t.read ((r.idsOf name).idxOf id) false).1 ∧
      reading (r.tryNext id).2 = (t.read ((r.idsOf name).idxOf id) false).2 := by
  obtain ⟨p, hp, -⟩ := part_eq_some hpart
  rcases queueOf_eq h hp hpart hid with ⟨hnone, herror⟩ | ⟨s, queue, hsome, hok⟩
  · simp only [tryNext, Part.read, hnone, herror]
    exact ⟨hpart, rfl⟩
  · obtain ⟨rest, answer, htry⟩ : ∃ rest answer, queue.tryPop = (rest, answer) := ⟨_, _, rfl⟩
    have hput := part_putQueue hp hpart s rest
    rcases answer with failure | _ | e <;>
      simp only [tryNext, Part.read, hsome, hok, htry] <;>
      exact ⟨hput, rfl⟩

/-- Reading for a subscriber of another topic. -/
theorem part_putQueue_of_ne (h : r.tables.Consistent) (hpart : r.part name = some t)
    (hid : id ∉ r.idsOf name) {s : Subscriber} {queue : Queue}
    (hqueue : r.queueOf id = .ok (p, s, queue)) (rest : Queue) :
    (r.putQueue p s rest).part name = some t := by
  obtain ⟨entry, hentry, -, hp, -, -⟩ := queueOf_ok hqueue
  apply part_putTopic_of_ne hpart
  intro hname
  have htopic : entry.topic = name := (mem_of_topic? hp).2.symm.trans hname
  exact hid ((mem_idsOf_iff h).mpr ⟨entry, hentry, htopic⟩)

theorem part_next_of_not_mem (h : r.tables.Consistent) (hpart : r.part name = some t)
    (hid : id ∉ r.idsOf name) : (r.next id).1.part name = some t := by
  unfold next
  cases hqueue : r.queueOf id with
  | error failure => exact hpart
  | ok found =>
    obtain ⟨p, s, queue⟩ := found
    exact part_putQueue_of_ne h hpart hid hqueue _

theorem part_tryNext_of_not_mem (h : r.tables.Consistent) (hpart : r.part name = some t)
    (hid : id ∉ r.idsOf name) : (r.tryNext id).1.part name = some t := by
  unfold tryNext
  cases hqueue : r.queueOf id with
  | error failure => exact hpart
  | ok found =>
    obtain ⟨p, s, queue⟩ := found
    exact part_putQueue_of_ne h hpart hid hqueue _

/-- Taking a snapshot over is an errand for its topic. -/
theorem part_load (hpart : r.part name = some t) (topic text : String) :
    (r.load topic text).1.part name =
      some (t.performAll (if topic = name then [.work (.load text)] else [])).1 := by
  obtain ⟨p, hp, ht⟩ := part_eq_some hpart
  have hwork : (Pipeline.Call.load text).IsWork := trivial
  by_cases htopic : topic = name
  · rw [if_pos htopic, htopic]
    unfold load
    rw [topic_of_some hp]
    simp only [Except.bind]
    cases hload : p.load text with
    | error failure =>
      have happly : (p.apply (.load text)).1 = p := by simp only [Pipeline.apply, hload]
      refine part_work hwork hpart ?_ rfl
      rw [hp, Option.map_some, happly]
    | ok q =>
      have happly : (p.apply (.load text)).1 = q := by simp only [Pipeline.apply, hload]
      have hq : name = q.name :=
        (mem_of_topic? hp).2.symm.trans (congrArg Face.name (Pipeline.face_load hload)).symm
      refine part_work hwork hpart ?_ rfl
      rw [hp, Option.map_some, happly, topic?_putTopic hp, if_pos hq]
  · rw [if_neg htopic]
    unfold load
    cases hother : r.topic? topic with
    | none =>
      rw [topic_of_none hother]
      exact hpart
    | some other =>
      rw [topic_of_some hother]
      simp only [Except.bind]
      cases hload : other.load text with
      | error failure => exact hpart
      | ok q =>
        apply part_putTopic_of_ne hpart
        intro hname
        have hq : q.name = other.name := congrArg Face.name (Pipeline.face_load hload)
        exact htopic ((mem_of_topic? hother).2.symm.trans (hq.symm.trans hname))

/-- A watermark for one topic is an errand for it. -/
theorem serves_advanceTopic (h : r.tables.Consistent) (hpart : r.part name = some t)
    (topic : String) (w : Millis) :
    (r.advanceTopic topic w).1.part name =
        some (t.performAll (if topic = name then [.work (.advance w)] else [])).1 ∧
      ((r.advanceTopic topic w).2.toOption.getD []).filter (fun e => e.topic == name) =
        t.told (if topic = name then [.work (.advance w)] else []) := by
  obtain ⟨p, hp, -⟩ := part_eq_some hpart
  unfold advanceTopic
  cases hfind : r.topic? topic with
  | none =>
    have hne : topic ≠ name := by
      rintro rfl
      rw [hp] at hfind
      cases hfind
    rw [topic_of_none hfind, if_neg hne]
    exact ⟨hpart, rfl⟩
  | some other =>
    have hserves := serves_advanceTopics h hpart w (List.nodup_singleton topic)
    simp only [List.mem_singleton, eq_comm (a := name)] at hserves
    rw [topic_of_some hfind]
    exact hserves

/-- A topic that comes is no errand for another one. -/
theorem part_createFrom (hpart : r.part name = some t) (other : String) (spec : TopicSpec) :
    (r.createFrom other spec).1.part name = some t := by
  obtain ⟨p, hp, rfl⟩ := part_eq_some hpart
  unfold createFrom
  cases r.examine other spec with
  | error failure => exact hpart
  | ok endpoint => exact part_of_some (topic?_install hp other endpoint spec)

/-- A topic that goes is no errand for another one. -/
theorem part_delete (hpart : r.part name = some t) {other : String} (hne : other ≠ name) :
    (r.delete other).1.part name = some t := by
  cases hother : r.topic? other with
  | none =>
    rw [delete, topic_of_none hother]
    exact hpart
  | some gone =>
    have hname : gone.name = other := (mem_of_topic? hother).2
    have hentries : (r.uninstall gone).entriesOf name = r.entriesOf name := by
      simp only [entriesOf, uninstall, List.filter_filter]
      apply List.filter_congr
      intro s _
      by_cases htopic : s.topic = name
      · simp [htopic, hname, Ne.symm hne]
      · simp [htopic]
    rw [delete_of_some hother]
    exact (part_congr (topic?_uninstall (hname ▸ hne)) hentries).trans hpart

end TelemetryBands.Registry
