import Mathlib.Logic.Relation
import TelemetryBands.Proofs.Delivery.Roll
import TelemetryBands.Proofs.Registry.Tables
import TelemetryBands.Proofs.Topic.Listening

/-!
# What calls do to the tables of a registry

Samples, watermarks, snapshots and reading leave the tables of a registry as they are. All other
calls change them in steps of four kinds: a topic comes or goes, or a subscriber comes or goes.
-/

namespace TelemetryBands

/-- What the tables know about a topic. -/
structure Face where
  name : String
  endpoint : Endpoint
  deleted : Bool
  roll : Roll
  deriving DecidableEq

/-- What the tables know about this topic. -/
def Pipeline.face (p : Pipeline) : Face :=
  ⟨p.name, p.endpoint, p.deleted, p.dispatcher.roll⟩

/-- Changes the roll of the topic of a name. -/
def Face.update (name : String) (change : Roll → Roll) (f : Face) : Face :=
  if f.name = name then { f with roll := change f.roll } else f

@[simp] theorem Face.name_update (name : String) (change : Roll → Roll) (f : Face) :
    (f.update name change).name = f.name := by
  unfold update
  split <;> rfl

@[simp] theorem Face.endpoint_update (name : String) (change : Roll → Roll) (f : Face) :
    (f.update name change).endpoint = f.endpoint := by
  unfold update
  split <;> rfl

@[simp] theorem Face.deleted_update (name : String) (change : Roll → Roll) (f : Face) :
    (f.update name change).deleted = f.deleted := by
  unfold update
  split <;> rfl

@[simp] theorem Face.update_id (name : String) : Face.update name id = id := by
  funext f
  unfold update
  split <;> rfl

theorem Face.update_of_eq {name : String} {f : Face} (h : f.name = name) (change : Roll → Roll) :
    f.update name change = { f with roll := change f.roll } :=
  if_pos h

theorem Face.update_of_ne {name : String} {f : Face} (h : f.name ≠ name) (change : Roll → Roll) :
    f.update name change = f :=
  if_neg h

/-- What changing a roll keeps of every roll holds after the roll of one topic was changed. -/
theorem Face.forall_roll_update {P : Roll → Prop} {faces : List Face} {name : String}
    {change : Roll → Roll} (hchange : ∀ roll, P roll → P (change roll))
    (h : ∀ f ∈ faces, P f.roll) : ∀ f ∈ faces.map (Face.update name change), P f.roll := by
  intro f hf
  obtain ⟨g, hg, rfl⟩ := List.mem_map.mp hf
  unfold Face.update
  split
  · exact hchange g.roll (h g hg)
  · exact h g hg

theorem Pipeline.face_eq {p q : Pipeline} (hidentity : q.identity = p.identity)
    (hroll : q.dispatcher.roll = p.dispatcher.roll) : q.face = p.face := by
  have hname : q.name = p.name := congrArg Identity.name hidentity
  have hendpoint : q.endpoint = p.endpoint := congrArg Identity.endpoint hidentity
  have hdeleted : q.deleted = p.deleted := congrArg Identity.deleted hidentity
  unfold face
  rw [hname, hendpoint, hdeleted, hroll]

/-- The tables do not notice that a topic works. -/
theorem Pipeline.face_apply (p : Pipeline) (call : Call) (h : call.IsWork) :
    (p.apply call).1.face = p.face := by
  apply face_eq (identity_apply h)
  rw [dispatcher_apply h, Dispatcher.roll_dispatchAll]

theorem Pipeline.face_ingest (p : Pipeline) (s : Sample) : (p.ingest s).1.face = p.face :=
  p.face_apply (.ingest s) trivial

theorem Pipeline.face_advance (p : Pipeline) (w : Millis) : (p.advance w).1.face = p.face :=
  p.face_apply (.advance w) trivial

theorem Pipeline.face_load {p q : Pipeline} {text : String} (h : p.load text = .ok q) :
    q.face = p.face := by
  have happly : (p.apply (.load text)).1 = q := by simp only [apply, h]
  rw [← happly]
  exact p.face_apply (.load text) trivial

/-- What of a registry its topics do not change by their work. -/
structure Tables where
  settings : Settings
  permits : Endpoint → Bool
  faces : List Face
  routes : List Route
  subscriptions : List Subscription
  issued : Nat
  retired : List Subscriber

/-- The tables of a registry. -/
def Registry.tables (r : Registry) : Tables where
  settings := r.settings
  permits := r.permits
  faces := r.topics.map Pipeline.face
  routes := r.routes
  subscriptions := r.subscriptions
  issued := r.issued
  retired := r.retired

namespace Tables

/-- No two topics have the same name. -/
def Distinct (t : Tables) : Prop :=
  (t.faces.map Face.name).Nodup

/-- A topic comes. -/
def install (t : Tables) (name : String) (endpoint : Endpoint) : Tables :=
  { t with
    faces := t.faces ++ [⟨name, endpoint, false, ⟨[], [], 0⟩⟩]
    routes := Registry.addRoute endpoint name t.routes }

/-- A topic goes, and all that ever subscribed to it are kept elsewhere. -/
def uninstall (t : Tables) (f : Face) (gone : List Subscriber) : Tables :=
  { t with
    faces := t.faces.filter fun g => g.name != f.name
    routes := Registry.dropRoute f.endpoint f.name t.routes
    subscriptions := t.subscriptions.filter fun s => s.topic != f.name
    retired := t.retired ++ gone }

/-- A subscriber comes. -/
def enrol (t : Tables) (name : String) (queued : Bool) : Tables :=
  { t with
    faces := t.faces.map (Face.update name fun roll => roll.add (.issue t.issued))
    subscriptions := t.subscriptions ++ [⟨.issue t.issued, name, queued⟩]
    issued := t.issued + 1 }

/-- A subscriber goes. -/
def dismiss (t : Tables) (s : Subscription) : Tables :=
  { t with
    faces := t.faces.map (Face.update s.topic fun roll => roll.remove s.id)
    subscriptions := t.subscriptions.filter fun other => other.id != s.id }

/-- A change of the tables. -/
inductive Step : Tables → Tables → Prop where
  | install (t : Tables) (name : String) (endpoint : Endpoint)
      (hnew : ∀ f ∈ t.faces, f.name ≠ name)
      (hroom : t.faces.length < t.settings.maxTopics.toNat) : Step t (t.install name endpoint)
  | uninstall (t : Tables) (f : Face) (gone : List Subscriber) (hmem : f ∈ t.faces)
      (hgone : gone.map Subscriber.card = f.roll.closeAll.departed) : Step t (t.uninstall f gone)
  | enrol (t : Tables) (f : Face) (queued : Bool) (hmem : f ∈ t.faces) :
      Step t (t.enrol f.name queued)
  | dismiss (t : Tables) (s : Subscription) (hmem : s ∈ t.subscriptions) : Step t (t.dismiss s)

/-- Changes of the tables one after the other. -/
abbrev Steps : Tables → Tables → Prop :=
  Relation.ReflTransGen Step

/-- No change gives two topics the same name. -/
theorem Step.distinct {t u : Tables} (hstep : Step t u) (h : t.Distinct) : u.Distinct := by
  unfold Distinct at h ⊢
  cases hstep with
  | install name endpoint hnew =>
    rw [Tables.install, List.map_append, List.nodup_append']
    refine ⟨h, List.nodup_singleton name, ?_⟩
    rw [List.map_singleton, List.disjoint_singleton, List.mem_map]
    rintro ⟨f, hf, hname⟩
    exact hnew f hf hname
  | uninstall f gone => exact h.sublist (List.filter_sublist.map _)
  | enrol f queued => simpa [Tables.enrol, Function.comp_def] using h
  | dismiss s => simpa [Tables.dismiss, Function.comp_def] using h

theorem Steps.distinct {t u : Tables} (hsteps : Steps t u) (h : t.Distinct) : u.Distinct := by
  induction hsteps with
  | refl => exact h
  | tail _ hstep ih => exact hstep.distinct ih

/-- Those who are kept elsewhere stay as they are. -/
theorem Steps.retired_grows {t u : Tables} (hsteps : Steps t u) : t.retired <+: u.retired := by
  induction hsteps with
  | refl => exact List.prefix_refl _
  | tail _ hstep ih =>
    cases hstep with
    | uninstall f gone => exact ih.trans (List.prefix_append _ _)
    | _ => exact ih

/-- No change touches the settings or the permits. -/
theorem Steps.settings_eq {t u : Tables} (hsteps : Steps t u) :
    u.settings = t.settings ∧ u.permits = t.permits := by
  induction hsteps with
  | refl => exact ⟨rfl, rfl⟩
  | tail _ hstep ih => cases hstep <;> exact ih

end Tables

namespace Registry

variable {r : Registry} {name : String} {p q : Pipeline} {α : Type}

theorem distinct_iff : r.tables.Distinct ↔ (r.topics.map Pipeline.name).Nodup := by
  have hnames : r.tables.faces.map Face.name = r.topics.map Pipeline.name := by
    simp only [tables, List.map_map]
    rfl
  rw [Tables.Distinct, hnames]

theorem face_mem (h : r.topic? name = some p) : p.face ∈ r.tables.faces :=
  List.mem_map_of_mem (mem_of_topic? h).1

/-- Putting a topic with another roll in its place changes this roll. -/
theorem tables_putTopic (h : r.tables.Distinct) (hp : r.topic? name = some p)
    (change : Roll → Roll) (hq : q.face = { p.face with roll := change p.face.roll }) :
    (r.putTopic q).tables =
      { r.tables with faces := r.tables.faces.map (Face.update name change) } := by
  obtain ⟨hmem, hname⟩ := mem_of_topic? hp
  have hqname : q.name = name := (congrArg Face.name hq).trans hname
  simp only [tables, putTopic, List.map_map]
  congr 1
  apply List.map_congr_left
  intro x hx
  simp only [Function.comp_apply, Face.update, beq_iff_eq, hqname]
  by_cases hxname : x.name = name
  · have hnames := distinct_iff.mp h
    have hxp : x = p := List.inj_on_of_nodup_map hnames hx hmem (hxname.trans hname.symm)
    have hface : x.face.name = name := hxname
    rw [if_pos hxname, if_pos hface, hq, hxp]
  · have hface : ¬ x.face.name = name := hxname
    rw [if_neg hxname, if_neg hface]

theorem tables_putTopic_of_face_eq (h : r.tables.Distinct) (hp : r.topic? name = some p)
    (hq : q.face = p.face) : (r.putTopic q).tables = r.tables := by
  rw [tables_putTopic h hp id hq, Face.update_id, List.map_id]

section Work

variable {f : Pipeline → Pipeline × α × Effect}

theorem tables_work (hf : ∀ p, (f p).1.face = p.face) (h : r.tables.Distinct) (name : String) :
    (r.work name f).1.tables = r.tables := by
  unfold work
  cases hfind : r.topic? name with
  | none => rfl
  | some p => exact tables_putTopic_of_face_eq h hfind (hf p)

theorem tables_workAll (hf : ∀ p, (f p).1.face = p.face) (h : r.tables.Distinct)
    (names : List String) : (r.workAll f names).1.tables = r.tables := by
  induction names generalizing r with
  | nil => rfl
  | cons name names ih =>
    have hwork := tables_work hf h name
    rw [workAll]
    exact (ih (hwork ▸ h)).trans hwork

end Work

theorem tables_ingestAt (h : r.tables.Distinct) (endpoint : Endpoint) (s : Sample) :
    (r.ingestAt endpoint s).1.tables = r.tables :=
  tables_workAll (f := fun p => p.ingest s) (fun p => p.face_ingest s) h _

theorem tables_ingest (h : r.tables.Distinct) (device point : String) (s : Sample) :
    (r.ingest device point s).1.tables = r.tables := by
  unfold ingest
  cases r.endpointOf device point with
  | error failure => rfl
  | ok endpoint => exact tables_ingestAt h endpoint s

theorem tables_advanceTopics (h : r.tables.Distinct) (w : Millis) (names : List String) :
    (r.advanceTopics w names).1.tables = r.tables :=
  tables_workAll (f := fun p => ((p.advance w).1, (), (p.advance w).2))
    (fun p => p.face_advance w) h names

theorem tables_advance (h : r.tables.Distinct) (device point : String) (w : Millis) :
    (r.advance device point w).1.tables = r.tables := by
  unfold advance
  cases r.endpointOf device point with
  | error failure => rfl
  | ok endpoint => exact tables_advanceTopics h w _

theorem tables_advanceTopic (h : r.tables.Distinct) (name : String) (w : Millis) :
    (r.advanceTopic name w).1.tables = r.tables := by
  unfold advanceTopic
  cases r.topic name with
  | error failure => rfl
  | ok p => exact tables_advanceTopics h w [name]

theorem tables_advanceTarget (h : r.tables.Distinct) (device point : Option String) (w : Millis) :
    (r.advanceTarget device point w).1.tables = r.tables := by
  unfold advanceTarget
  split
  · exact tables_advance h _ _ w
  · exact tables_advanceTopics h w _
  · rfl

theorem tables_feed (h : r.tables.Distinct) (report : DrainReport) (item : FeedItem) :
    (r.feed report item).1.tables = r.tables := by
  cases item with
  | sample device point s =>
    have hingest := tables_ingest h device point s
    simp only [feed]
    split <;> simp_all
  | watermark device point t =>
    have hadvance := tables_advanceTarget h device point t
    simp only [feed]
    split <;> simp_all

theorem tables_drainFrom (h : r.tables.Distinct) (report : DrainReport)
    (items : List (Except Failure FeedItem)) :
    (r.drainFrom report items).1.tables = r.tables := by
  induction items generalizing r report with
  | nil => rfl
  | cons item items ih =>
    cases item with
    | error failure => rfl
    | ok item =>
      have hfeed := tables_feed h report item
      unfold drainFrom
      split
      · rename_i heq
        rw [heq] at hfeed
        exact hfeed
      · rename_i heq
        rw [heq] at hfeed
        exact (ih (hfeed ▸ h) _).trans hfeed

theorem tables_load (h : r.tables.Distinct) (name text : String) :
    (r.load name text).1.tables = r.tables := by
  unfold load topic
  cases hfind : r.topic? name with
  | none => rfl
  | some p =>
    simp only [Except.bind]
    cases hload : p.load text with
    | error failure => rfl
    | ok q => exact tables_putTopic_of_face_eq h hfind (Pipeline.face_load hload)

/-- What is read from belongs to a topic. -/
theorem queueOf_ok {id : SubscriptionId} {s : Subscriber} {queue : Queue}
    (h : r.queueOf id = .ok (p, s, queue)) :
    ∃ entry, r.subscription? id = some entry ∧ entry.queued = true ∧
      r.topic? entry.topic = some p ∧ p.dispatcher.find? id = some s ∧
        s.sink.queue? = some queue := by
  unfold queueOf at h
  cases hentry : r.subscription? id with
  | none => simp [hentry] at h
  | some entry =>
    cases hqueued : entry.queued with
    | false => simp [hentry, hqueued] at h
    | true =>
      cases hfind : r.topic? entry.topic with
      | none => simp [hentry, hqueued, hfind] at h
      | some p' =>
        cases hsubscriber : p'.dispatcher.find? id with
        | none => simp [hentry, hqueued, hfind, hsubscriber] at h
        | some s' =>
          cases hqueue : s'.sink.queue? with
          | none => simp [hentry, hqueued, hfind, hsubscriber, hqueue] at h
          | some queue' =>
            simp only [hentry, hqueued, hfind, hsubscriber, hqueue, if_true, Except.ok.injEq,
              Prod.mk.injEq] at h
            obtain ⟨rfl, rfl, rfl⟩ := h
            exact ⟨entry, rfl, hqueued, hfind, hsubscriber, hqueue⟩

theorem tables_putQueue (h : r.tables.Distinct) (hp : r.topic? name = some p) (s : Subscriber)
    (queue : Queue) : (r.putQueue p s queue).tables = r.tables := by
  apply tables_putTopic_of_face_eq h hp
  exact Pipeline.face_eq rfl (Dispatcher.roll_changeSink _ _ _)

theorem tables_next (h : r.tables.Distinct) (id : SubscriptionId) :
    (r.next id).1.tables = r.tables := by
  unfold next
  cases hqueue : r.queueOf id with
  | error failure => rfl
  | ok found =>
    obtain ⟨p, s, queue⟩ := found
    obtain ⟨entry, -, -, hp, -, -⟩ := queueOf_ok hqueue
    exact tables_putQueue h hp s _

theorem tables_tryNext (h : r.tables.Distinct) (id : SubscriptionId) :
    (r.tryNext id).1.tables = r.tables := by
  unfold tryNext
  cases hqueue : r.queueOf id with
  | error failure => rfl
  | ok found =>
    obtain ⟨p, s, queue⟩ := found
    obtain ⟨entry, -, -, hp, -, -⟩ := queueOf_ok hqueue
    exact tables_putQueue h hp s _

/-- A topic that passes the last check is new, and there is room for it. -/
theorem new_of_tableRefusal? (h : r.tableRefusal? name = none) :
    r.topic? name = none ∧ r.topics.length < r.settings.maxTopics.toNat := by
  unfold tableRefusal? at h
  cases htaken : (r.topic? name).isSome with
  | true =>
    rw [htaken, if_pos rfl] at h
    cases h
  | false =>
    rw [htaken, if_neg Bool.false_ne_true] at h
    refine ⟨by simpa using htaken, ?_⟩
    by_contra hfull
    rw [if_pos (Nat.le_of_not_lt hfull)] at h
    cases h

/-- A topic that passes all checks passes the last one. -/
theorem tableRefusal?_of_examine {spec : TopicSpec} {endpoint : Endpoint}
    (h : r.examine name spec = .ok endpoint) : r.tableRefusal? name = none := by
  unfold examine at h
  cases hrefusal : nameRefusal? name <|> r.densityRefusal? spec.ladder with
  | some refusal => simp only [hrefusal, reduceCtorEq] at h
  | none =>
    cases hresolve : Endpoint.resolve r.settings.scope spec.device spec.point with
    | error flaw => simp only [hrefusal, hresolve, reduceCtorEq] at h
    | ok resolved =>
      cases hpermits : r.permits resolved with
      | false =>
        simp only [hrefusal, hresolve, hpermits, Bool.not_false, if_true, reduceCtorEq] at h
      | true =>
        cases htable : r.tableRefusal? name with
        | some refusal =>
          simp only [hrefusal, hresolve, hpermits, htable, Bool.not_true, Bool.false_eq_true,
            if_false, reduceCtorEq] at h
        | none => rfl

/-- Creating a topic is a step, if it succeeds. -/
theorem steps_createFrom (name : String) (spec : TopicSpec) :
    Tables.Steps r.tables (r.createFrom name spec).1.tables := by
  unfold createFrom
  cases hexamine : r.examine name spec with
  | error failure => exact .refl
  | ok endpoint =>
    obtain ⟨hfree, hroom⟩ := new_of_tableRefusal? (tableRefusal?_of_examine hexamine)
    have htables : (r.install name endpoint spec).tables = r.tables.install name endpoint := by
      simp only [tables, install, Tables.install, List.map_append]
      rfl
    simp only [htables]
    apply Relation.ReflTransGen.single
    apply Tables.Step.install
    · intro f hf
      obtain ⟨p, hp, rfl⟩ := List.mem_map.mp hf
      exact topic?_eq_none_iff.mp hfree p hp
    · simpa [tables] using hroom

theorem tables_uninstall (p : Pipeline) :
    (r.uninstall p).tables = r.tables.uninstall p.face p.shutDown.dispatcher.departed := by
  simp only [tables, uninstall, Tables.uninstall, List.filter_map]
  rfl

/-- Deleting a topic is a step, if there is one. -/
theorem steps_delete (name : String) : Tables.Steps r.tables (r.delete name).1.tables := by
  unfold delete topic
  cases hfind : r.topic? name with
  | none => exact .refl
  | some p =>
    simp only [tables_uninstall]
    have hgone := congrArg Roll.departed p.dispatcher.roll_closeAll
    exact .single (.uninstall r.tables p.face _ (face_mem hfind) hgone)

/-- Deleting topics are steps. -/
theorem steps_deleteAll (names : List String) :
    Tables.Steps r.tables (names.foldl (fun r name => (r.delete name).1) r).tables := by
  induction names generalizing r with
  | nil => exact .refl
  | cons name names ih => exact (steps_delete name).trans ih

theorem attach_of_none (h : r.topic? name = none) (sink : Sink) (queued : Bool) :
    r.attach name sink queued = (r, .error (.noTopic name)) := by
  rw [attach, topic_of_none h]

theorem attach_of_some (h : r.topic? name = some p) (sink : Sink) (queued : Bool) :
    r.attach name sink queued =
      ({ r.putTopic (p.subscribe (.issue r.issued) sink) with
          subscriptions := r.subscriptions ++ [⟨.issue r.issued, name, queued⟩]
          issued := r.issued + 1 }, .ok ⟨.issue r.issued, name, queued⟩) := by
  rw [attach, topic_of_some h]
  rfl

/-- Subscribing is a step, if there is the topic. -/
theorem steps_attach (h : r.tables.Distinct) (name : String) (sink : Sink) (queued : Bool) :
    Tables.Steps r.tables (r.attach name sink queued).1.tables := by
  cases hfind : r.topic? name with
  | none =>
    rw [attach_of_none hfind]
  | some p =>
    have hput := tables_putTopic (q := p.subscribe (.issue r.issued) sink) h hfind
      (fun roll => roll.add (.issue r.issued)) (by simp [Pipeline.face, Pipeline.subscribe])
    have htables : (r.attach name sink queued).1.tables = r.tables.enrol name queued := by
      rw [attach_of_some hfind]
      exact congrArg (fun t : Tables => { t with
        subscriptions := r.subscriptions ++ [(⟨.issue r.issued, name, queued⟩ : Subscription)]
        issued := r.issued + 1 }) hput
    have hname : p.face.name = name := (mem_of_topic? hfind).2
    rw [htables, ← hname]
    exact .single (.enrol r.tables p.face queued (face_mem hfind))

/-- A registry without the entry of an identifier. -/
def forget (r : Registry) (id : SubscriptionId) : Registry :=
  { r with subscriptions := r.subscriptions.filter fun s => s.id != id }

theorem unsubscribe_of_none {id : SubscriptionId} (h : r.subscription? id = none) :
    r.unsubscribe id = (r, .error (noSubscription id)) := by
  rw [unsubscribe, h]

theorem unsubscribe_of_some {id : SubscriptionId} {s : Subscription}
    (h : r.subscription? id = some s) :
    r.unsubscribe id =
      match (r.forget id).topic? s.topic with
      | none => (r.forget id, .ok ())
      | some p => ((r.forget id).putTopic (p.unsubscribe id).1, .ok ()) := by
  rw [unsubscribe, h]
  rfl

/-- What ending a subscription does to the tables. -/
theorem tables_unsubscribe (h : r.tables.Distinct) {id : SubscriptionId} {s : Subscription}
    (hentry : r.subscription? id = some s) :
    (r.unsubscribe id).1.tables = r.tables.dismiss s := by
  have hid : s.id = id := by simpa using List.find?_some hentry
  have hforget : (r.forget id).tables =
      { r.tables with subscriptions := r.subscriptions.filter fun s => s.id != id } := rfl
  rw [unsubscribe_of_some hentry]
  cases hfind : r.topic? s.topic with
  | none =>
    have hsame : r.tables.faces.map (Face.update s.topic fun roll => roll.remove s.id) =
        r.tables.faces := by
      conv_rhs => rw [← List.map_id r.tables.faces]
      apply List.map_congr_left
      intro f hf
      obtain ⟨p, hp, rfl⟩ := List.mem_map.mp hf
      exact Face.update_of_ne (topic?_eq_none_iff.mp hfind p hp) _
    have hnone : (r.forget id).topic? s.topic = none := hfind
    rw [hnone, Tables.dismiss, hsame, hid]
    exact hforget
  | some p =>
    have hsome : (r.forget id).topic? s.topic = some p := hfind
    rw [hsome, Tables.dismiss, hid]
    exact tables_putTopic (r := r.forget id) h hsome (fun roll => roll.remove id)
      (by simp [Pipeline.face, Pipeline.unsubscribe])

/-- Ending a subscription is a step, if there is one. -/
theorem steps_unsubscribe (h : r.tables.Distinct) (id : SubscriptionId) :
    Tables.Steps r.tables (r.unsubscribe id).1.tables := by
  cases hentry : r.subscription? id with
  | none => rw [unsubscribe_of_none hentry]
  | some s =>
    rw [tables_unsubscribe h hentry]
    exact .single (.dismiss r.tables s (List.mem_of_find?_eq_some hentry))

/-- Every call changes the tables in steps. -/
theorem steps_apply (h : r.tables.Distinct) (call : Call) :
    Tables.Steps r.tables (r.apply call).1.tables := by
  cases call with
  | create name text =>
    simp only [apply, create]
    cases TopicSpec.parse text with
    | error flaw => exact .refl
    | ok spec => exact steps_createFrom name spec
  | createFrom name spec => exact steps_createFrom name spec
  | delete name => exact steps_delete name
  | cleanUp => exact steps_deleteAll r.names
  | names => exact .refl
  | key name => exact .refl
  | subscribe topic => exact steps_attach h topic _ true
  | subscribeSink topic sink => exact steps_attach h topic sink false
  | unsubscribe id => exact steps_unsubscribe h id
  | next id =>
    simp only [apply, tables_next h]
    exact .refl
  | tryNext id =>
    simp only [apply, tables_tryNext h]
    exact .refl
  | ingest device point s =>
    simp only [apply, tables_ingest h]
    exact .refl
  | advance device point w =>
    simp only [apply, tables_advance h]
    exact .refl
  | advanceTopic name w =>
    simp only [apply, tables_advanceTopic h]
    exact .refl
  | advanceAll w =>
    simp only [apply, advanceAll, tables_advanceTopics h]
    exact .refl
  | drain items =>
    simp only [apply, drain, tables_drainFrom h]
    exact .refl
  | stats name => exact .refl
  | save name => exact .refl
  | load name text =>
    simp only [apply, tables_load h]
    exact .refl
  | drainFaults => exact .refl

/-- Calls change the tables in steps. -/
theorem steps_run (h : r.tables.Distinct) (calls : List Call) :
    Tables.Steps r.tables (r.run calls).1.tables := by
  induction calls generalizing r with
  | nil => exact .refl
  | cons call calls ih =>
    have hcall := steps_apply h call
    exact hcall.trans (ih (hcall.distinct h))

end Registry

end TelemetryBands
