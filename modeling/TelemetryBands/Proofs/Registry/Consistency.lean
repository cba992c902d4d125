import Mathlib.Data.List.Count
import TelemetryBands.Proofs.Registry.Steps

/-!
# The tables of a registry agree

Topics, routes and subscriptions are kept in tables of their own, and every topic keeps its
subscribers. No call leaves these in disagreement: every change of one table comes with the changes
of the others. So a sample reaches exactly the topics that watch its endpoint.
-/

namespace TelemetryBands

theorem SubscriptionId.issue_injective : Function.Injective SubscriptionId.issue := by
  intro m n h
  have hnumber : base + m = base + n := congrArg SubscriptionId.number h
  omega

theorem Roll.ids_remove {roll : Roll} {id : SubscriptionId}
    (h : (roll.present.map Card.id).Nodup) :
    (roll.remove id).present.map Card.id = (roll.present.map Card.id).filter (· != id) := by
  have hpresent : (roll.remove id).present = roll.present.eraseP fun c => c.id == id := by
    unfold remove
    cases hfind : roll.present.find? fun c => c.id == id with
    | none =>
      refine (List.eraseP_of_forall_not fun c hc => ?_).symm
      exact List.find?_eq_none.mp hfind c hc
    | some c => rfl
  rw [hpresent, ← h.erase_eq_filter, List.erase_eq_eraseP', List.eraseP_map]
  rfl

namespace Tables

variable {t : Tables} {f : Face} {name : String} {endpoint : Endpoint}

/-- The entries of a topic among the subscriptions. -/
def entriesOf (t : Tables) (name : String) : List Subscription :=
  t.subscriptions.filter fun s => s.topic == name

/-- The names of the topics that watch an endpoint. -/
def watching (t : Tables) (endpoint : Endpoint) : List String :=
  (t.faces.filter fun f => f.endpoint == endpoint).map Face.name

/-- The tables agree with each other. -/
structure Consistent (t : Tables) : Prop where
  distinct : t.Distinct
  alive : ∀ f ∈ t.faces, f.deleted = false
  within : t.faces.length ≤ t.settings.maxTopics.toNat
  endpoints : (t.routes.map Route.endpoint).Nodup
  inhabited : ∀ route ∈ t.routes, route.names ≠ []
  routed : ∀ endpoint, Route.namesAt t.routes endpoint = t.watching endpoint
  attached : ∀ f ∈ t.faces, f.roll.present.map Card.id = (t.entriesOf f.name).map Subscription.id
  known : ∀ s ∈ t.subscriptions, ∃ f ∈ t.faces, f.name = s.topic
  single : (t.subscriptions.map Subscription.id).Nodup
  issued : ∀ s ∈ t.subscriptions, ∃ n < t.issued, s.id = .issue n
  numbered : ∀ f ∈ t.faces, f.roll.Numbered

namespace Consistent

theorem entriesOf_eq_nil (h : t.Consistent) (hnew : ∀ f ∈ t.faces, f.name ≠ name) :
    t.entriesOf name = [] := by
  rw [entriesOf, List.filter_eq_nil_iff]
  intro s hs
  obtain ⟨f, hf, hname⟩ := h.known s hs
  simp [← hname, hnew f hf]

theorem eq_of_name (h : t.Consistent) {f g : Face} (hf : f ∈ t.faces) (hg : g ∈ t.faces)
    (hname : f.name = g.name) : f = g :=
  List.inj_on_of_nodup_map h.distinct hf hg hname

theorem eq_of_id (h : t.Consistent) {s s' : Subscription} (hs : s ∈ t.subscriptions)
    (hs' : s' ∈ t.subscriptions) (hid : s.id = s'.id) : s = s' :=
  List.inj_on_of_nodup_map h.single hs hs' hid

theorem install (h : t.Consistent) (hnew : ∀ f ∈ t.faces, f.name ≠ name)
    (hroom : t.faces.length < t.settings.maxTopics.toNat) :
    (t.install name endpoint).Consistent where
  distinct := (Step.install t name endpoint hnew hroom).distinct h.distinct
  alive := by
    intro f hf
    rcases List.mem_append.mp hf with hf | hf
    · exact h.alive f hf
    · rw [List.mem_singleton.mp hf]
  within := by simpa [Tables.install, Nat.succ_le_iff] using hroom
  endpoints := (Route.addRoute_sound h.endpoints h.inhabited).1
  inhabited := (Route.addRoute_sound h.endpoints h.inhabited).2
  routed := by
    intro other
    have hrouted := h.routed other
    simp only [watching] at hrouted
    simp only [Tables.install, Route.namesAt_addRoute, hrouted, watching, List.filter_append,
      List.map_append]
    by_cases hother : endpoint = other
    · simp [hother]
    · simp [hother]
  attached := by
    intro f hf
    rcases List.mem_append.mp hf with hf | hf
    · exact h.attached f hf
    · rw [List.mem_singleton.mp hf]
      have hnone : (t.install name endpoint).entriesOf name = [] := h.entriesOf_eq_nil hnew
      rw [hnone]
      rfl
  known := by
    intro s hs
    obtain ⟨f, hf, hname⟩ := h.known s hs
    exact ⟨f, List.mem_append_left _ hf, hname⟩
  single := h.single
  issued := h.issued
  numbered := by
    intro f hf
    rcases List.mem_append.mp hf with hf | hf
    · exact h.numbered f hf
    · rw [List.mem_singleton.mp hf]
      exact .empty

theorem uninstall (h : t.Consistent) {gone : List Subscriber} (hmem : f ∈ t.faces)
    (hgone : gone.map Subscriber.card = f.roll.closeAll.departed) :
    (t.uninstall f gone).Consistent where
  distinct := (Step.uninstall t f gone hmem hgone).distinct h.distinct
  alive := fun g hg => h.alive g (List.mem_of_mem_filter hg)
  within := (List.length_filter_le _ _).trans h.within
  endpoints := h.endpoints.sublist (Route.endpoints_dropRoute_sublist f.endpoint f.name t.routes)
  inhabited := Route.dropRoute_ne_nil h.inhabited
  routed := by
    intro other
    have hrouted := h.routed other
    simp only [watching] at hrouted
    simp only [Tables.uninstall, Route.namesAt_dropRoute h.endpoints, hrouted, watching,
      List.filter_filter]
    split
    · rw [List.filter_map, List.filter_filter]
      congr 1
      apply List.filter_congr
      intro g _
      exact Bool.and_comm _ _
    · -- The topic that goes does not watch this endpoint.
      rename_i hother
      congr 1
      apply List.filter_congr
      intro g hg
      by_cases hname : g.name = f.name
      · rw [h.eq_of_name hg hmem hname]
        simp [hother]
      · simp [hname]
  attached := by
    intro g hg
    obtain ⟨hg, hname⟩ := List.mem_filter.mp hg
    rw [h.attached g hg]
    simp only [entriesOf, Tables.uninstall, List.filter_filter]
    congr 1
    apply List.filter_congr
    intro s _
    by_cases htopic : s.topic = g.name
    · simpa [htopic] using hname
    · simp [htopic]
  known := by
    intro s hs
    obtain ⟨hs, htopic⟩ := List.mem_filter.mp hs
    obtain ⟨g, hg, hname⟩ := h.known s hs
    exact ⟨g, List.mem_filter.mpr ⟨hg, hname ▸ htopic⟩, hname⟩
  single := h.single.sublist (List.filter_sublist.map _)
  issued := fun s hs => h.issued s (List.mem_of_mem_filter hs)
  numbered := fun g hg => h.numbered g (List.mem_of_mem_filter hg)

/-- No subscription has the identifier that is issued next. -/
theorem fresh (h : t.Consistent) :
    SubscriptionId.issue t.issued ∉ t.subscriptions.map Subscription.id := by
  rw [List.mem_map]
  rintro ⟨s, hs, hid⟩
  obtain ⟨n, hn, hissue⟩ := h.issued s hs
  have heq := SubscriptionId.issue_injective (hid.symm.trans hissue)
  omega

theorem watching_map (t : Tables) (change : Roll → Roll) (name : String) (endpoint : Endpoint) :
    { t with faces := t.faces.map (Face.update name change) }.watching endpoint =
      t.watching endpoint := by
  simp [watching, List.filter_map, Function.comp_def]

theorem enrol (h : t.Consistent) (hmem : f ∈ t.faces) (queued : Bool) :
    (t.enrol f.name queued).Consistent where
  distinct := (Step.enrol t f queued hmem).distinct h.distinct
  alive := by
    intro g hg
    obtain ⟨g', hg', rfl⟩ := List.mem_map.mp hg
    rw [Face.deleted_update]
    exact h.alive g' hg'
  within := by simpa [Tables.enrol] using h.within
  endpoints := h.endpoints
  inhabited := h.inhabited
  routed := fun endpoint => (h.routed endpoint).trans (watching_map t _ f.name endpoint).symm
  attached := by
    intro g hg
    obtain ⟨g', hg', rfl⟩ := List.mem_map.mp hg
    have hattached := h.attached g' hg'
    rw [Face.name_update]
    by_cases hname : g'.name = f.name
    · rw [Face.update_of_eq hname, Roll.add, List.map_append, hattached, hname]
      simp [entriesOf, Tables.enrol]
    · have hne : (f.name == g'.name) = false := by simpa using Ne.symm hname
      rw [Face.update_of_ne hname, hattached]
      simp [entriesOf, Tables.enrol, hne]
  known := by
    intro s hs
    have hknown : ∃ g ∈ t.faces, g.name = s.topic := by
      rcases List.mem_append.mp hs with hs | hs
      · exact h.known s hs
      · rw [List.mem_singleton.mp hs]
        exact ⟨f, hmem, rfl⟩
    obtain ⟨g, hg, hname⟩ := hknown
    exact ⟨_, List.mem_map_of_mem hg, (Face.name_update _ _ g).trans hname⟩
  single := by
    simp only [Tables.enrol, List.map_append, List.map_singleton]
    exact h.single.append (List.nodup_singleton _) (List.disjoint_singleton.mpr h.fresh)
  issued := by
    intro s hs
    rcases List.mem_append.mp hs with hs | hs
    · obtain ⟨n, hn, hid⟩ := h.issued s hs
      exact ⟨n, Nat.lt_succ_of_lt hn, hid⟩
    · rw [List.mem_singleton.mp hs]
      exact ⟨t.issued, Nat.lt_succ_self _, rfl⟩
  numbered := Face.forall_roll_update (fun _ hroll => hroll.add _) h.numbered

theorem dismiss (h : t.Consistent) {s : Subscription} (hmem : s ∈ t.subscriptions) :
    (t.dismiss s).Consistent where
  distinct := (Step.dismiss t s hmem).distinct h.distinct
  alive := by
    intro g hg
    obtain ⟨g', hg', rfl⟩ := List.mem_map.mp hg
    rw [Face.deleted_update]
    exact h.alive g' hg'
  within := by simpa [Tables.dismiss] using h.within
  endpoints := h.endpoints
  inhabited := h.inhabited
  routed := fun endpoint => (h.routed endpoint).trans (watching_map t _ s.topic endpoint).symm
  attached := by
    intro g hg
    obtain ⟨g', hg', rfl⟩ := List.mem_map.mp hg
    have hattached := h.attached g' hg'
    rw [Face.name_update]
    by_cases hname : g'.name = s.topic
    · have hnodup : (g'.roll.present.map Card.id).Nodup := by
        rw [hattached]
        exact h.single.sublist (List.filter_sublist.map _)
      rw [Face.update_of_eq hname, Roll.ids_remove hnodup, hattached]
      simp only [entriesOf, Tables.dismiss, List.filter_map, List.filter_filter]
      congr 1
      apply List.filter_congr
      intro s' _
      exact Bool.and_comm _ _
    · -- The entry that goes is the only one of its identifier, and of another topic.
      rw [Face.update_of_ne hname, hattached]
      simp only [entriesOf, Tables.dismiss, List.filter_filter]
      congr 1
      apply List.filter_congr
      intro s' hs'
      by_cases hid : s'.id = s.id
      · rw [h.eq_of_id hs' hmem hid]
        simp [Ne.symm hname]
      · simp [hid]
  known := by
    intro s' hs'
    obtain ⟨g, hg, hname⟩ := h.known s' (List.mem_of_mem_filter hs')
    exact ⟨_, List.mem_map_of_mem hg, (Face.name_update _ _ g).trans hname⟩
  single := h.single.sublist (List.filter_sublist.map _)
  issued := fun s' hs' => h.issued s' (List.mem_of_mem_filter hs')
  numbered := Face.forall_roll_update (fun _ hroll => hroll.remove _) h.numbered

/-- Every change leaves the tables in agreement. -/
theorem step {u : Tables} (h : t.Consistent) (hstep : Step t u) : u.Consistent := by
  cases hstep with
  | install name endpoint hnew hroom => exact h.install hnew hroom
  | uninstall f gone hmem hgone => exact h.uninstall hmem hgone
  | enrol f queued hmem => exact h.enrol hmem queued
  | dismiss s hmem => exact h.dismiss hmem

theorem steps {u : Tables} (h : t.Consistent) (hsteps : Steps t u) : u.Consistent := by
  induction hsteps with
  | refl => exact h
  | tail _ hstep ih => exact ih.step hstep

end Consistent

end Tables

theorem Pipeline.disposition_ne_deleted {p : Pipeline} (h : p.deleted = false) (s : Sample) :
    (p.ingest s).2.1 ≠ .deleted := by
  cases hin : p.spec.inRange s.time with
  | false =>
    rw [ingest_of_outOfRange h hin]
    simp
  | true =>
    rw [ingest_eq h hin]
    simp only [dispositionOf]
    split
    · decide
    · split <;> decide

/-- Every disposition but that of deleted topics is counted in a report. -/
theorem Disposition.counts_eq_length {l : List Disposition} (h : ∀ d ∈ l, d ≠ .deleted) :
    l.count .accepted + l.count .late + l.count .outOfRange + l.count .rejected = l.length := by
  induction l with
  | nil => rfl
  | cons d l ih =>
    have hrest := ih fun d hd => h d (List.mem_cons_of_mem _ hd)
    have hhead := h d List.mem_cons_self
    simp only [List.count_cons, List.length_cons]
    cases d <;> first | contradiction | (simp; omega)

namespace Registry

variable {r : Registry} {name : String} {endpoint : Endpoint}

theorem consistent_new (settings : Settings) (permits : Endpoint → Bool) :
    (new settings permits).tables.Consistent where
  distinct := List.nodup_nil
  alive := by simp [tables, new]
  within := Nat.zero_le _
  endpoints := List.nodup_nil
  inhabited := by simp [tables, new]
  routed := fun _ => rfl
  attached := by simp [tables, new]
  known := by simp [tables, new]
  single := List.nodup_nil
  issued := by simp [tables, new]
  numbered := by simp [tables, new]

/-- No call leaves the tables in disagreement. -/
theorem consistent_apply (h : r.tables.Consistent) (call : Call) :
    (r.apply call).1.tables.Consistent :=
  h.steps (steps_apply h.distinct call)

theorem consistent_run (h : r.tables.Consistent) (calls : List Call) :
    (r.run calls).1.tables.Consistent :=
  h.steps (steps_run h.distinct calls)

/-- The topics that watch an endpoint. -/
def watching (r : Registry) (endpoint : Endpoint) : List Pipeline :=
  r.topics.filter fun p => p.endpoint == endpoint

theorem route_eq_watching (h : r.tables.Consistent) (endpoint : Endpoint) :
    r.route endpoint = (r.watching endpoint).map Pipeline.name := by
  have hrouted := h.routed endpoint
  simp only [Tables.watching, tables, List.filter_map, List.map_map] at hrouted
  exact hrouted

theorem mem_route_iff (h : r.tables.Consistent) :
    name ∈ r.route endpoint ↔ ∃ p, r.topic? name = some p ∧ p.endpoint = endpoint := by
  rw [route_eq_watching h, List.mem_map]
  constructor
  · rintro ⟨p, hp, hname⟩
    obtain ⟨hmem, hendpoint⟩ := List.mem_filter.mp hp
    exact ⟨p, (topic?_eq_some_iff (distinct_iff.mp h.distinct)).mpr ⟨hmem, hname⟩,
      by simpa using hendpoint⟩
  · rintro ⟨p, hp, hendpoint⟩
    obtain ⟨hmem, hname⟩ := mem_of_topic? hp
    exact ⟨p, List.mem_filter.mpr ⟨hmem, by simpa using hendpoint⟩, hname⟩

theorem nodup_route (h : r.tables.Consistent) (endpoint : Endpoint) :
    (r.route endpoint).Nodup := by
  rw [route_eq_watching h]
  exact (distinct_iff.mp h.distinct).sublist (List.filter_sublist.map _)

/-- What a sample is reported to have met. -/
def reportOf (r : Registry) (endpoint : Endpoint) (s : Sample) : IngestReport where
  topics := (r.watching endpoint).length
  dispositions := (r.watching endpoint).map fun p => (p.ingest s).2.1
  published := (r.watching endpoint).flatMap fun p => (p.ingest s).2.2.events

/-- A sample reaches the topics that watch its endpoint, each once, and no other. -/
theorem ingestAt_eq (h : r.tables.Consistent) (endpoint : Endpoint) (s : Sample) :
    ∃ faults, r.ingestAt endpoint s =
      ({ r with
          topics := r.topics.map fun p => if p.endpoint = endpoint then (p.ingest s).1 else p
          faults }, r.reportOf endpoint s) := by
  have hdistinct := distinct_iff.mp h.distinct
  have hname : ∀ p : Pipeline, (p.ingest s).1.name = p.name :=
    fun p => congrArg Face.name (p.face_ingest s)
  obtain ⟨faults, hall⟩ := workAll_eq (f := fun p => p.ingest s) hname hdistinct
    (nodup_route h endpoint)
  have hanswers : (r.route endpoint).filterMap (r.answerOf fun p => p.ingest s) =
      (r.watching endpoint).map fun p => ((p.ingest s).2.1, (p.ingest s).2.2.events) := by
    rw [route_eq_watching h, List.filterMap_map, ← List.filterMap_eq_map]
    apply List.filterMap_congr
    intro p hp
    have hfind : r.topic? p.name = some p :=
      (topic?_eq_some_iff hdistinct).mpr ⟨List.mem_of_mem_filter hp, rfl⟩
    simp only [Function.comp_apply, answerOf, hfind, Option.map_some]
  refine ⟨faults, ?_⟩
  simp only [ingestAt, hall, hanswers, List.length_map, List.map_map, List.flatMap_map]
  congr 2
  apply List.map_congr_left
  intro p hp
  have hiff : p.name ∈ r.route endpoint ↔ p.endpoint = endpoint := by
    rw [mem_route_iff h]
    have hfind := (topic?_eq_some_iff hdistinct).mpr ⟨hp, rfl⟩
    simp [hfind]
  simp only [Pipeline.changeIn, hiff]

/-- The report of a sample accounts for every topic that it met. -/
theorem count_reportOf (h : r.tables.Consistent) (endpoint : Endpoint) (s : Sample) :
    (r.reportOf endpoint s).count .accepted + (r.reportOf endpoint s).count .late +
      (r.reportOf endpoint s).count .outOfRange + (r.reportOf endpoint s).count .rejected =
        (r.reportOf endpoint s).topics := by
  unfold IngestReport.count reportOf
  rw [Disposition.counts_eq_length, List.length_map]
  intro d hd
  obtain ⟨p, hp, rfl⟩ := List.mem_map.mp hd
  have hmem : p.face ∈ r.tables.faces := List.mem_map_of_mem (List.mem_of_mem_filter hp)
  exact p.disposition_ne_deleted (h.alive p.face hmem) s

/-- The tables of a registry agree with each other and with what its topics keep. -/
structure Agrees (r : Registry) : Prop where
  /-- No two topics have the same name, -/
  names : (r.topics.map Pipeline.name).Nodup
  /-- and none of them is deleted. -/
  alive : ∀ p ∈ r.topics, p.deleted = false
  /-- There are not more topics than there may be. -/
  within : r.topics.length ≤ r.settings.maxTopics.toNat
  /-- An endpoint has one route, -/
  endpoints : (r.routes.map Route.endpoint).Nodup
  /-- and no route is empty. -/
  inhabited : ∀ route ∈ r.routes, route.names ≠ []
  /-- A name is once on the route of the endpoint of its topic, and nowhere else. -/
  routed : ∀ name endpoint, (r.route endpoint).count name =
    if (r.topic? name).map Pipeline.endpoint = some endpoint then 1 else 0
  /-- The subscribers of a topic are those of the subscriptions that name it. -/
  attached : ∀ p ∈ r.topics, p.dispatcher.subscribers.map Subscriber.id =
    (r.subscriptions.filter fun s => s.topic == p.name).map Subscription.id
  /-- Every subscription names a topic, -/
  known : ∀ s ∈ r.subscriptions, ∃ p, r.topic? s.topic = some p
  /-- and no two subscriptions have the same identifier. -/
  single : (r.subscriptions.map Subscription.id).Nodup

theorem agrees (h : r.tables.Consistent) : r.Agrees where
  names := distinct_iff.mp h.distinct
  alive := fun p hp => h.alive p.face (List.mem_map_of_mem hp)
  within := by simpa [tables] using h.within
  endpoints := h.endpoints
  inhabited := h.inhabited
  routed := by
    intro name endpoint
    have hiff : name ∈ r.route endpoint ↔
        (r.topic? name).map Pipeline.endpoint = some endpoint := by
      rw [mem_route_iff h, Option.map_eq_some_iff]
    rw [(nodup_route h endpoint).count]
    simp only [hiff]
  attached := by
    intro p hp
    have hattached := h.attached p.face (List.mem_map_of_mem hp)
    simp only [Pipeline.face, Dispatcher.roll, List.map_map] at hattached
    exact hattached
  known := by
    intro s hs
    obtain ⟨f, hf, hname⟩ := h.known s hs
    obtain ⟨p, hp, rfl⟩ := List.mem_map.mp hf
    exact ⟨p, (topic?_eq_some_iff (distinct_iff.mp h.distinct)).mpr ⟨hp, hname⟩⟩
  single := h.single

/-- Whatever was asked of a registry, its tables agree, and a sample reaches exactly the topics that
watch its endpoint, each of which is counted in the report. -/
theorem tables_agree (settings : Settings) (permits : Endpoint → Bool) (calls : List Call)
    (device point : String) (s : Sample) :
    let r := ((new settings permits).run calls).1
    r.settings = settings ∧ r.Agrees ∧
      match r.endpointOf device point with
      | .error failure => r.ingest device point s = (r, .error failure)
      | .ok endpoint => ∃ faults report,
        r.ingest device point s =
          ({ r with
              topics := r.topics.map fun p => if p.endpoint = endpoint then (p.ingest s).1 else p
              faults }, .ok report) ∧
        report = r.reportOf endpoint s ∧
        report.count .accepted + report.count .late + report.count .outOfRange +
          report.count .rejected = report.topics := by
  intro r
  have hnew := consistent_new settings permits
  have h : r.tables.Consistent := consistent_run hnew calls
  refine ⟨(steps_run hnew.distinct calls).settings_eq.1, agrees h, ?_⟩
  cases hendpoint : r.endpointOf device point with
  | error failure => simp only [ingest, hendpoint]
  | ok endpoint =>
    obtain ⟨faults, hingest⟩ := ingestAt_eq h endpoint s
    refine ⟨faults, r.reportOf endpoint s, ?_, rfl, count_reportOf h endpoint s⟩
    simp only [ingest, hendpoint, hingest]

end Registry

end TelemetryBands
