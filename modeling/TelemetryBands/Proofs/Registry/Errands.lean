import TelemetryBands.Proofs.Registry.Consistency
import TelemetryBands.Proofs.Topic.Anonymity

/-!
# What the calls on a registry ask of one topic

A topic notices little of what is asked of its registry. Each call comes down to a few errands for
it, or to none: work, a subscriber that comes or goes, or a message that is read. What becomes of
the topic depends on these errands only, and so does everything that is heard of it.
-/

namespace TelemetryBands

/-- Something that a topic is asked for. Subscribers are known by their places. -/
inductive Errand where
  | work (call : Pipeline.Call)
  | enrol (sink : Sink) (queued : Bool)
  | release (place : Nat)
  | read (place : Nat) (waits : Bool)

/-- What comes of an errand. -/
inductive Errand.Outcome where
  | worked (reply : Pipeline.Reply) (effect : Effect)
  | done
  | read (answer : Except Failure.Kind (Option Event))

/-- The events that come of an errand. -/
def Errand.Outcome.events : Errand.Outcome → List Event
  | .worked _ effect => effect.events
  | .done | .read _ => []

/-- What a registry has of one topic: the topic, whose subscribers have no names, and for each of
them whether its events wait in a queue of the registry. -/
structure Part where
  topic : Pipeline
  queued : List Bool

namespace Part

/-- The subscriber at a place, with the queue from which its events are read. -/
def queueAt (t : Part) (place : Nat) : Option (Subscriber × Queue) :=
  if t.queued[place]? = some true then
    t.topic.dispatcher.subscribers[place]?.bind fun s => s.sink.queue?.map fun q => (s, q)
  else none

/-- Reads a message of the subscriber at a place. -/
def read (t : Part) (place : Nat) (waits : Bool) : Part × Except Failure.Kind (Option Event) :=
  match t.queueAt place with
  | none => (t, .error .validation)
  | some (s, q) =>
    let (rest, answer) := q.tryPop
    ({ t with topic := t.topic.heardBy (t.topic.dispatcher.changeSink s.serial (.queue rest)) },
      match answer with
      | .error failure => .error failure.kind
      | .ok none => if waits then .error .timeout else .ok none
      | .ok (some e) => .ok (some e))

/-- Runs one errand. -/
def perform (t : Part) : Errand → Part × Errand.Outcome
  | .work call =>
    let (topic, reply, effect) := t.topic.apply call
    ({ t with topic }, .worked reply effect)
  | .enrol sink queued => (⟨t.topic.subscribe .nil sink, t.queued ++ [queued]⟩, .done)
  | .release place =>
    (⟨t.topic.heardBy (t.topic.dispatcher.removeAt place), t.queued.eraseIdx place⟩, .done)
  | .read place waits => let (t, answer) := t.read place waits; (t, .read answer)

/-- Runs errands one after the other. -/
def performAll (t : Part) : List Errand → Part × List Errand.Outcome
  | [] => (t, [])
  | errand :: errands =>
    let (next, outcome) := t.perform errand
    let (final, outcomes) := next.performAll errands
    (final, outcome :: outcomes)

/-- The events that come of errands. -/
def told (t : Part) (errands : List Errand) : List Event :=
  (t.performAll errands).2.flatMap Errand.Outcome.events

theorem performAll_append (t : Part) (first rest : List Errand) :
    t.performAll (first ++ rest) =
      (((t.performAll first).1.performAll rest).1,
        (t.performAll first).2 ++ ((t.performAll first).1.performAll rest).2) := by
  induction first generalizing t with
  | nil => rfl
  | cons errand first ih => simp only [List.cons_append, performAll, ih]

theorem told_append (t : Part) (first rest : List Errand) :
    t.told (first ++ rest) = t.told first ++ (t.performAll first).1.told rest := by
  rw [told, performAll_append, List.flatMap_append]
  rfl

end Part

/-- The topics that two names are meant for: those of an endpoint. -/
def Registry.aim (settings : Settings) (device point : String) : Except Failure (Option Endpoint) :=
  ((Endpoint.resolve settings.scope device point).mapError Endpoint.Flaw.failure).map some

/-- The topics that a line of a feed is meant for: those of an endpoint, or all. -/
def FeedItem.aim (settings : Settings) : FeedItem → Except Failure (Option Endpoint)
  | .sample device point _ => Registry.aim settings device point
  | .watermark (some device) (some point) _ => Registry.aim settings device point
  | .watermark none none _ => .ok none
  | .watermark _ _ _ => .error Registry.halfTarget

/-- What a line of a feed makes its topics do. -/
def FeedItem.work : FeedItem → Pipeline.Call
  | .sample _ _ s => .ingest s
  | .watermark _ _ t => .advance t

theorem FeedItem.isWork_work (item : FeedItem) : item.work.IsWork := by
  cases item <;> exact trivial

/-- Whether something is meant for the topics of an endpoint, among others. -/
def Endpoint.isMet (watched : Endpoint) : Except Failure (Option Endpoint) → Bool
  | .ok none => true
  | .ok (some endpoint) => endpoint == watched
  | .error _ => false

namespace Errand

/-- Work that is meant for some topics, as an errand of a topic that watches an endpoint. -/
def aimed (watched : Endpoint) (aim : Except Failure (Option Endpoint)) (call : Pipeline.Call) :
    List Errand :=
  if watched.isMet aim then [.work call] else []

/-- The errands of a feed, up to its first failure. -/
def ofItems (settings : Settings) (watched : Endpoint) :
    List (Except Failure FeedItem) → List Errand
  | [] => []
  | .error _ :: _ => []
  | .ok item :: items =>
    match item.aim settings with
    | .error _ => []
    | .ok aim => aimed watched (.ok aim) item.work ++ ofItems settings watched items

end Errand

namespace Registry

/-- The errands of a call for the topic of a name that watches an endpoint, where the subscribers of
the topic have the given identifiers. -/
def Call.errands (settings : Settings) (name : String) (watched : Endpoint)
    (ids : List SubscriptionId) : Call → List Errand
  | .subscribe topic =>
    if topic = name then
      [.enrol (.queue (.new settings.queueCapacity.toNat settings.overflow)) true]
    else []
  | .subscribeSink topic sink => if topic = name then [.enrol sink false] else []
  | .unsubscribe id => if id ∈ ids then [.release (ids.idxOf id)] else []
  | .next id => if id ∈ ids then [.read (ids.idxOf id) true] else []
  | .tryNext id => if id ∈ ids then [.read (ids.idxOf id) false] else []
  | .ingest device point s => Errand.aimed watched (aim settings device point) (.ingest s)
  | .advance device point w => Errand.aimed watched (aim settings device point) (.advance w)
  | .advanceTopic topic w => if topic = name then [.work (.advance w)] else []
  | .advanceAll w => [.work (.advance w)]
  | .drain items => Errand.ofItems settings watched items
  | .load topic text => if topic = name then [.work (.load text)] else []
  | .create _ _ | .createFrom _ _ | .delete _ | .cleanUp | .names | .key _ | .stats _ | .save _
  | .drainFaults => []

/-- The subscriptions of a topic. -/
def entriesOf (r : Registry) (name : String) : List Subscription :=
  r.subscriptions.filter fun s => s.topic == name

/-- The identifiers of the subscriptions of a topic. -/
def idsOf (r : Registry) (name : String) : List SubscriptionId :=
  (r.entriesOf name).map Subscription.id

/-- What a registry has of the topic of a name. -/
def part (r : Registry) (name : String) : Option Part :=
  (r.topic? name).map fun p => ⟨p.anonymous, (r.entriesOf name).map Subscription.queued⟩

/-- The topics that something is meant for. -/
def namesFor (r : Registry) : Option Endpoint → List String
  | none => r.names
  | some endpoint => r.route endpoint

variable {r q : Registry} {name : String} {p : Pipeline} {t : Part} {α : Type}

theorem part_of_some (hp : r.topic? name = some p) :
    r.part name = some ⟨p.anonymous, (r.entriesOf name).map Subscription.queued⟩ := by
  rw [part, hp, Option.map_some]

theorem part_eq_some (h : r.part name = some t) :
    ∃ p, r.topic? name = some p ∧
      t = ⟨p.anonymous, (r.entriesOf name).map Subscription.queued⟩ := by
  obtain ⟨p, hp, rfl⟩ := Option.map_eq_some_iff.mp h
  exact ⟨p, hp, rfl⟩

theorem part_congr (htopic : q.topic? name = r.topic? name)
    (hentries : q.entriesOf name = r.entriesOf name) : q.part name = r.part name := by
  rw [part, htopic, hentries]
  rfl

/-- The identifiers of the subscribers of a topic are those of its subscriptions. -/
theorem ids_eq_idsOf (h : r.tables.Consistent) (hp : r.topic? name = some p) :
    p.dispatcher.ids = r.idsOf name := by
  obtain ⟨hmem, hname⟩ := mem_of_topic? hp
  have hattached := (agrees h).attached p hmem
  rw [hname] at hattached
  exact hattached

theorem nodup_idsOf (h : r.tables.Consistent) (name : String) : (r.idsOf name).Nodup :=
  h.single.sublist (List.filter_sublist.map _)

theorem nodup_namesFor (h : r.tables.Consistent) (aim : Option Endpoint) :
    (r.namesFor aim).Nodup := by
  cases aim with
  | none => exact r.names_perm.nodup_iff.mpr (distinct_iff.mp h.distinct)
  | some endpoint => exact nodup_route h endpoint

theorem mem_namesFor_iff (h : r.tables.Consistent) (hp : r.topic? name = some p)
    (aim : Option Endpoint) : name ∈ r.namesFor aim ↔ p.endpoint.isMet (.ok aim) = true := by
  obtain ⟨hmem, hname⟩ := mem_of_topic? hp
  cases aim with
  | none =>
    have hnames : name ∈ r.names := by
      rw [r.names_perm.mem_iff, ← hname]
      exact List.mem_map_of_mem hmem
    simp [namesFor, hnames, Endpoint.isMet]
  | some endpoint =>
    rw [namesFor, mem_route_iff h, Endpoint.isMet, beq_iff_eq]
    constructor
    · rintro ⟨p', hp', hendpoint⟩
      rw [← hendpoint, Option.some.inj (hp.symm.trans hp')]
    · rintro rfl
      exact ⟨p, hp, rfl⟩

section Work

variable {f : Pipeline → Pipeline × α × Effect} {call : Pipeline.Call}

theorem name_of_work (hwork : call.IsWork) (hstate : ∀ p, (f p).1 = (p.apply call).1)
    (p : Pipeline) : (f p).1.name = p.name := by
  rw [hstate]
  exact congrArg Pipeline.Identity.name (Pipeline.identity_apply hwork)

/-- Work as an errand of a topic, in place. -/
theorem part_work (hwork : call.IsWork) (hpart : r.part name = some t)
    (htopic : q.topic? name = (r.topic? name).map fun p => (p.apply call).1)
    (hentries : q.entriesOf name = r.entriesOf name) :
    q.part name = some (t.performAll [.work call]).1 := by
  obtain ⟨p, hp, rfl⟩ := part_eq_some hpart
  rw [hp, Option.map_some] at htopic
  rw [part_of_some htopic, hentries]
  simp only [Part.performAll, Part.perform, p.apply_anonymous hwork]

theorem told_work (hwork : call.IsWork) (hp : r.topic? name = some p)
    (hpart : r.part name = some t) : t.told [.work call] = (p.apply call).2.2.events := by
  obtain ⟨p', hp', rfl⟩ := part_eq_some hpart
  obtain rfl : p' = p := Option.some.inj (hp'.symm.trans hp)
  simp only [Part.told, Part.performAll, Part.perform, p'.apply_anonymous hwork,
    List.flatMap_cons, List.flatMap_nil, List.append_nil, Errand.Outcome.events]

/-- The events of a topic among the answers of topics. -/
theorem filter_answers (hname : ∀ p, ∀ e ∈ (f p).2.2.events, e.topic = p.name)
    {names : List String} (hnames : names.Nodup) (hp : r.topic? name = some p) :
    ((names.filterMap (r.answerOf f)).flatMap Prod.snd).filter (fun e => e.topic == name) =
      if name ∈ names then (f p).2.2.events else [] := by
  induction names with
  | nil => rfl
  | cons first names ih =>
    obtain ⟨hhead, hrest⟩ := List.nodup_cons.mp hnames
    have hfirst : ((r.answerOf f first).toList.flatMap Prod.snd).filter
        (fun e => e.topic == name) = if first = name then (f p).2.2.events else [] := by
      unfold answerOf
      split
      · rename_i heq
        rw [heq, hp]
        simp only [Option.map_some, Option.toList_some, List.flatMap_singleton]
        apply List.filter_eq_self.mpr
        intro e he
        rw [hname p e he, (mem_of_topic? hp).2, beq_self_eq_true]
      · rename_i hne
        cases hother : r.topic? first with
        | none => rfl
        | some other =>
          simp only [Option.map_some, Option.toList_some, List.flatMap_singleton]
          apply List.filter_eq_nil_iff.mpr
          intro e he
          rw [hname other e he, (mem_of_topic? hother).2]
          simpa using hne
    have hsplit : (first :: names).filterMap (r.answerOf f) =
        (r.answerOf f first).toList ++ names.filterMap (r.answerOf f) := by
      rw [List.filterMap_cons]
      cases r.answerOf f first <;> rfl
    rw [hsplit, List.flatMap_append, List.filter_append, hfirst, ih hrest]
    by_cases heq : first = name
    · have hnot : name ∉ names := heq ▸ hhead
      simp [heq, hnot]
    · simp [heq, Ne.symm heq]

/-- What work of several topics changes, and what they answer. -/
theorem workAll_frame (hname : ∀ p, (f p).1.name = p.name) (h : r.tables.Consistent)
    {names : List String} (hnames : names.Nodup) (name : String) :
    (r.workAll f names).1.topic? name =
        (r.topic? name).map (Pipeline.changeIn names fun p => (f p).1) ∧
      (r.workAll f names).1.entriesOf name = r.entriesOf name ∧
      (r.workAll f names).2 = names.filterMap (r.answerOf f) := by
  obtain ⟨faults, hall⟩ := workAll_eq hname (distinct_iff.mp h.distinct) hnames
  rw [hall]
  exact ⟨find?_map_topics (Pipeline.changeIn_name hname names) r.topics, rfl, rfl⟩

/-- Work of several topics is an errand for each of them. -/
theorem serves_workAll (h : r.tables.Consistent) (hwork : call.IsWork)
    (hstate : ∀ p, (f p).1 = (p.apply call).1) (heffect : ∀ p, (f p).2.2 = (p.apply call).2.2)
    (hpart : r.part name = some t) {names : List String} (hnames : names.Nodup) :
    (r.workAll f names).1.part name =
        some (t.performAll (if name ∈ names then [.work call] else [])).1 ∧
      ((r.workAll f names).2.flatMap Prod.snd).filter (fun e => e.topic == name) =
        t.told (if name ∈ names then [.work call] else []) := by
  obtain ⟨p, hp, -⟩ := part_eq_some hpart
  have hname := name_of_work hwork hstate
  have htopics : ∀ p, ∀ e ∈ (f p).2.2.events, e.topic = p.name := by
    intro p e he
    rw [heffect] at he
    exact (Pipeline.signs_of_mem_apply he).1
  obtain ⟨htopic, hentries, hanswers⟩ := workAll_frame hname h hnames name
  rw [hanswers, filter_answers htopics hnames hp]
  rw [hp, Option.map_some, Pipeline.changeIn, (mem_of_topic? hp).2] at htopic
  by_cases hmem : name ∈ names
  · rw [if_pos hmem, hstate] at htopic
    rw [if_pos hmem, if_pos hmem, told_work hwork hp hpart, heffect]
    refine ⟨part_work hwork hpart ?_ hentries, rfl⟩
    rw [htopic, hp, Option.map_some]
  · rw [if_neg hmem] at htopic
    rw [if_neg hmem, if_neg hmem]
    exact ⟨(part_congr (htopic.trans hp.symm) hentries).trans hpart, rfl⟩

/-- Work is an errand of the topics that it is meant for. -/
theorem aimed_eq (h : r.tables.Consistent) (hpart : r.part name = some t) (aim : Option Endpoint) :
    Errand.aimed t.topic.endpoint (.ok aim) call =
      if name ∈ r.namesFor aim then [.work call] else [] := by
  obtain ⟨p, hp, rfl⟩ := part_eq_some hpart
  simp only [Errand.aimed, mem_namesFor_iff h hp aim]
  rfl

/-- Work for the topics that it is meant for. -/
theorem serves_aimed (h : r.tables.Consistent) (hwork : call.IsWork)
    (hstate : ∀ p, (f p).1 = (p.apply call).1) (heffect : ∀ p, (f p).2.2 = (p.apply call).2.2)
    (hpart : r.part name = some t) (aim : Option Endpoint) :
    (r.workAll f (r.namesFor aim)).1.part name =
        some (t.performAll (Errand.aimed t.topic.endpoint (.ok aim) call)).1 ∧
      ((r.workAll f (r.namesFor aim)).2.flatMap Prod.snd).filter (fun e => e.topic == name) =
        t.told (Errand.aimed t.topic.endpoint (.ok aim) call) := by
  rw [aimed_eq h hpart aim]
  exact serves_workAll h hwork hstate heffect hpart (nodup_namesFor h aim)

end Work

theorem aim_eq (r : Registry) (device point : String) :
    aim r.settings device point = (r.endpointOf device point).map some := rfl

/-- A sample for the topics of an endpoint. -/
theorem serves_ingestAt (h : r.tables.Consistent) (hpart : r.part name = some t)
    (endpoint : Endpoint) (s : Sample) :
    (r.ingestAt endpoint s).1.part name =
        some (t.performAll (Errand.aimed t.topic.endpoint (.ok (some endpoint)) (.ingest s))).1 ∧
      (r.ingestAt endpoint s).2.published.filter (fun e => e.topic == name) =
        t.told (Errand.aimed t.topic.endpoint (.ok (some endpoint)) (.ingest s)) := by
  have hwork : (Pipeline.Call.ingest s).IsWork := trivial
  exact serves_aimed (f := fun p => p.ingest s) h hwork (fun _ => rfl) (fun _ => rfl) hpart
    (some endpoint)

/-- A watermark for topics. -/
theorem serves_advanceTopics (h : r.tables.Consistent) (hpart : r.part name = some t) (w : Millis)
    {names : List String} (hnames : names.Nodup) :
    (r.advanceTopics w names).1.part name =
        some (t.performAll (if name ∈ names then [.work (.advance w)] else [])).1 ∧
      (r.advanceTopics w names).2.filter (fun e => e.topic == name) =
        t.told (if name ∈ names then [.work (.advance w)] else []) := by
  have hwork : (Pipeline.Call.advance w).IsWork := trivial
  exact serves_workAll (f := fun p => ((p.advance w).1, (), (p.advance w).2)) h hwork
    (fun _ => rfl) (fun _ => rfl) hpart hnames

/-- A watermark for the topics that it is meant for. -/
theorem serves_advanceFor (h : r.tables.Consistent) (hpart : r.part name = some t) (w : Millis)
    (aim : Option Endpoint) :
    (r.advanceTopics w (r.namesFor aim)).1.part name =
        some (t.performAll (Errand.aimed t.topic.endpoint (.ok aim) (.advance w))).1 ∧
      (r.advanceTopics w (r.namesFor aim)).2.filter (fun e => e.topic == name) =
        t.told (Errand.aimed t.topic.endpoint (.ok aim) (.advance w)) := by
  rw [aimed_eq h hpart aim]
  exact serves_advanceTopics h hpart w (nodup_namesFor h aim)

/-- What taking in one item of a feed does. -/
structure Feeds (r : Registry) (t : Part) (name : String) (report : DrainReport)
    (errands : List Errand) (next : Registry) (report' : DrainReport) : Prop where
  part : next.part name = some (t.performAll errands).1
  published : report'.published.filter (fun e => e.topic == name) =
    report.published.filter (fun e => e.topic == name) ++ t.told errands

/-- An item of a feed fails alike for all topics, or is work for those that it is meant for. -/
theorem serves_feed (h : r.tables.Consistent) (hpart : r.part name = some t) (report : DrainReport)
    (item : FeedItem) :
    match item.aim r.settings with
    | .error failure => r.feed report item = (r, .error failure)
    | .ok aim => ∃ next report', r.feed report item = (next, .ok report') ∧
      r.Feeds t name report (Errand.aimed t.topic.endpoint (.ok aim) item.work) next report' := by
  cases item with
  | sample device point s =>
    simp only [FeedItem.aim, aim_eq, FeedItem.work]
    cases hendpoint : r.endpointOf device point with
    | error failure => simp [feed, ingest, hendpoint, Except.map]
    | ok endpoint =>
      obtain ⟨hnext, htold⟩ := serves_ingestAt h hpart endpoint s
      simp only [feed, ingest, hendpoint]
      exact ⟨_, _, rfl, hnext, by simp only [List.filter_append, htold]⟩
  | watermark device point w =>
    cases device with
    | none =>
      cases point with
      | some point => rfl
      | none =>
        obtain ⟨hnext, htold⟩ := serves_advanceFor h hpart w none
        simp only [FeedItem.aim, FeedItem.work, feed, advanceTarget]
        exact ⟨_, _, rfl, hnext, by rw [List.filter_append, ← htold]; rfl⟩
    | some device =>
      cases point with
      | none => rfl
      | some point =>
        simp only [FeedItem.aim, aim_eq, FeedItem.work, feed, advanceTarget, advance]
        cases hendpoint : r.endpointOf device point with
        | error failure => simp [Except.map]
        | ok endpoint =>
          obtain ⟨hnext, htold⟩ := serves_advanceFor h hpart w (some endpoint)
          exact ⟨_, _, rfl, hnext, by rw [List.filter_append, ← htold]; rfl⟩

/-- Whether a feed can be taken in to its end. -/
def passes (settings : Settings) (items : List (Except Failure FeedItem)) : Bool :=
  items.all fun item => (item.bind fun item => item.aim settings).isOk

theorem endpoint_performAll_aimed (t : Part) (watched : Endpoint)
    (aim : Except Failure (Option Endpoint)) {call : Pipeline.Call} (hwork : call.IsWork) :
    (t.performAll (Errand.aimed watched aim call)).1.topic.endpoint = t.topic.endpoint := by
  unfold Errand.aimed
  split
  · exact congrArg Pipeline.Identity.endpoint (Pipeline.identity_apply hwork)
  · rfl

/-- A feed is the errands of its items, up to its first failure. -/
theorem serves_drainFrom (h : r.tables.Consistent) (hpart : r.part name = some t)
    (report : DrainReport) (items : List (Except Failure FeedItem)) :
    (r.drainFrom report items).1.part name =
        some (t.performAll (Errand.ofItems r.settings t.topic.endpoint items)).1 ∧
      (passes r.settings items = true → ∃ report', (r.drainFrom report items).2 = .ok report' ∧
        report'.published.filter (fun e => e.topic == name) =
          report.published.filter (fun e => e.topic == name) ++
            t.told (Errand.ofItems r.settings t.topic.endpoint items)) ∧
      (passes r.settings items = false →
        ∃ failure, (r.drainFrom report items).2 = .error failure) := by
  induction items generalizing r t report with
  | nil => exact ⟨hpart, fun _ => ⟨report, rfl, (List.append_nil _).symm⟩, by simp [passes]⟩
  | cons item items ih =>
    cases item with
    | error failure =>
      have hfails : passes r.settings (.error failure :: items) = false := rfl
      rw [hfails]
      exact ⟨hpart, by simp, fun _ => ⟨failure, rfl⟩⟩
    | ok item =>
      have hfeed := serves_feed h hpart report item
      have htables := tables_feed h.distinct report item
      have hpasses : passes r.settings (.ok item :: items) =
        ((item.aim r.settings).isOk && passes r.settings items) := rfl
      rw [hpasses, drainFrom, Errand.ofItems]
      cases haim : item.aim r.settings with
      | error failure =>
        rw [haim] at hfeed
        simp only at hfeed
        rw [hfeed]
        exact ⟨hpart, by simp [Except.isOk, Except.toBool], fun _ => ⟨failure, rfl⟩⟩
      | ok aim =>
        rw [haim] at hfeed
        obtain ⟨next, report', heq, hnext, hpublished⟩ := hfeed
        rw [heq] at htables
        -- The item leaves the settings and the endpoint, so the rest means the same as before.
        have hsettings : next.settings = r.settings := congrArg Tables.settings htables
        have hrest := ih (htables ▸ h) hnext report'
        rw [hsettings, endpoint_performAll_aimed t _ _ (FeedItem.isWork_work item)] at hrest
        obtain ⟨hfinal, hok, herror⟩ := hrest
        rw [heq]
        simp only [Part.performAll_append, Part.told_append]
        refine ⟨hfinal, fun hall => ?_, fun hall => ?_⟩
        · have hpass : passes r.settings items = true := by
            simpa [Except.isOk, Except.toBool] using hall
          obtain ⟨report'', hanswer, htold⟩ := hok hpass
          exact ⟨report'', hanswer, by rw [htold, hpublished, List.append_assoc]⟩
        · exact herror (by simpa [Except.isOk, Except.toBool] using hall)

end Registry

end TelemetryBands
