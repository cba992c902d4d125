import TelemetryBands.Proofs.Registry.Requests

/-!
# Topics are independent

The topics of a registry share its tables, the routes of their endpoints, the issue of identifiers
and the channel of faults. None of these carries anything from one topic to another: if all calls
that do not concern a topic are left out, the topic does the same, and so do those who subscribe to
it.
-/

namespace TelemetryBands

open Errand (Outcome)

namespace Registry

/-- The events that an answer hands out. -/
def Answer.published : Answer → List Event
  | .events l => l
  | .ingested report => report.published
  | .drained report => report.published
  | _ => []

/-- The events of a topic in the answer to a call. -/
def heard (name : String) : Except Failure Answer → List Event
  | .ok answer => answer.published.filter fun e => e.topic == name
  | .error _ => []

/-- Whether a call does not end a topic. -/
def Call.Keeps (name : String) : Call → Prop
  | .delete other => other ≠ name
  | .cleanUp => False
  | _ => True

/-- Whether a call goes through to its end; only a feed may stop on its way. -/
def Call.passes (settings : Settings) : Call → Bool
  | .drain items => Registry.passes settings items
  | _ => true

/-- Whether a call brings samples or watermarks. -/
def Call.IsTraffic : Call → Bool
  | .ingest _ _ _ | .advance _ _ _ | .advanceTopic _ _ | .advanceAll _ | .drain _ => true
  | _ => false

variable {r q : Registry} {name : String} {t : Part} {call : Call}

/-- The errands of a call for a topic of the registry. -/
def errandsOf (r : Registry) (name : String) (t : Part) (call : Call) : List Errand :=
  call.errands r.settings name t.topic.endpoint (r.idsOf name)

/-- A call that does not end a topic leaves of it what its errands make of it. -/
theorem part_apply (h : r.tables.Consistent) (hpart : r.part name = some t)
    (hkeeps : call.Keeps name) :
    (r.apply call).1.part name = some (t.performAll (r.errandsOf name t call)).1 := by
  cases call with
  | create other text =>
    simp only [apply, create]
    cases TopicSpec.parse text with
    | error flaw => exact hpart
    | ok spec => exact part_createFrom hpart other spec
  | createFrom other spec => exact part_createFrom hpart other spec
  | delete other => exact part_delete hpart hkeeps
  | cleanUp => exact hkeeps.elim
  | names => exact hpart
  | key other => exact hpart
  | subscribe topic => exact part_attach hpart topic _ true
  | subscribeSink topic sink => exact part_attach hpart topic sink false
  | unsubscribe id => exact part_unsubscribe h hpart id
  | next id =>
    simp only [apply, errandsOf, Call.errands]
    split
    · rename_i hid
      exact (serves_next h hpart hid).1
    · rename_i hid
      exact part_next_of_not_mem h hpart hid
  | tryNext id =>
    simp only [apply, errandsOf, Call.errands]
    split
    · rename_i hid
      exact (serves_tryNext h hpart hid).1
    · rename_i hid
      exact part_tryNext_of_not_mem h hpart hid
  | ingest device point s =>
    simp only [apply, errandsOf, Call.errands, ingest, aim_eq]
    cases r.endpointOf device point with
    | error failure => exact hpart
    | ok endpoint => exact (serves_ingestAt h hpart endpoint s).1
  | advance device point w =>
    simp only [apply, errandsOf, Call.errands, advance, aim_eq]
    cases r.endpointOf device point with
    | error failure => exact hpart
    | ok endpoint => exact (serves_advanceFor h hpart w (some endpoint)).1
  | advanceTopic topic w => exact (serves_advanceTopic h hpart topic w).1
  | advanceAll w => exact (serves_advanceFor h hpart w none).1
  | drain items => exact (serves_drainFrom h hpart .zero items).1
  | stats other => exact hpart
  | save other => exact hpart
  | load topic text =>
    simp only [apply]
    exact part_load hpart topic text
  | drainFaults => exact (part_congr rfl rfl).trans hpart

theorem heard_map {α : Type} {make : α → Answer} (hmake : ∀ x, (make x).published = [])
    (answer : Except Failure α) : heard name (answer.map make) = [] := by
  cases answer with
  | error failure => rfl
  | ok x => rw [Except.map, heard, hmake x, List.filter_nil]

/-- Calls other than samples and watermarks make a topic tell nothing. -/
theorem told_of_not_isTraffic (h : call.IsTraffic = false) :
    t.told (r.errandsOf name t call) = [] := by
  cases call with
  | subscribe topic =>
    simp only [errandsOf, Call.errands]
    split <;> rfl
  | subscribeSink topic sink =>
    simp only [errandsOf, Call.errands]
    split <;> rfl
  | unsubscribe id =>
    simp only [errandsOf, Call.errands]
    split <;> rfl
  | next id =>
    simp only [errandsOf, Call.errands]
    split <;> rfl
  | tryNext id =>
    simp only [errandsOf, Call.errands]
    split <;> rfl
  | load topic text =>
    have hload : (t.topic.apply (.load text)).2.2.events = [] := by
      simp only [Pipeline.apply]
      cases t.topic.load text <;> rfl
    simp only [errandsOf, Call.errands]
    split
    · simp only [Part.told, Part.performAll, Part.perform, List.flatMap_cons, List.flatMap_nil,
        Outcome.events, hload, List.append_nil]
    · rfl
  | create | createFrom | delete | cleanUp | names | key | stats | save | drainFaults => rfl
  | _ => cases h

/-- What a topic tells in the answer to a call that goes through are the events of its errands. -/
theorem heard_apply (h : r.tables.Consistent) (hpart : r.part name = some t) (call : Call) :
    heard name (r.apply call).2 =
      if call.passes r.settings then t.told (r.errandsOf name t call) else [] := by
  cases htraffic : call.IsTraffic with
  | false =>
    rw [told_of_not_isTraffic htraffic, ite_self]
    cases call with
    | create | createFrom | delete | subscribe | subscribeSink | unsubscribe | next | tryNext
    | load =>
      simp only [apply]
      exact heard_map (fun _ => rfl) _
    | key | stats | save => exact heard_map (fun _ => rfl) _
    | cleanUp | names | drainFaults => rfl
    | _ => cases htraffic
  | true =>
    cases call with
    | ingest device point s =>
      simp only [apply, errandsOf, Call.errands, ingest, aim_eq]
      cases r.endpointOf device point with
      | error failure => rfl
      | ok endpoint => exact (serves_ingestAt h hpart endpoint s).2
    | advance device point w =>
      simp only [apply, errandsOf, Call.errands, advance, aim_eq]
      cases r.endpointOf device point with
      | error failure => rfl
      | ok endpoint => exact (serves_advanceFor h hpart w (some endpoint)).2
    | advanceTopic topic w =>
      have hserves := (serves_advanceTopic h hpart topic w).2
      simp only [apply, errandsOf, Call.errands, Call.passes, if_true, ← hserves]
      cases (r.advanceTopic topic w).2 <;> rfl
    | advanceAll w => exact (serves_advanceFor h hpart w none).2
    | drain items =>
      obtain ⟨-, hok, herror⟩ := serves_drainFrom h hpart .zero items
      cases hpasses : passes r.settings items with
      | true =>
        obtain ⟨report, hanswer, htold⟩ := hok hpasses
        simp only [apply, drain, hanswer, Call.passes, hpasses, if_true]
        exact htold
      | false =>
        obtain ⟨failure, hanswer⟩ := herror hpasses
        simp only [apply, drain, hanswer, Call.passes, hpasses]
        rfl
    | _ => cases htraffic

/-- Something that is seen of a topic: what it did for an errand, what was read for one of its
subscribers, or one of its events in the answer to a call. -/
inductive Sighting where
  | outcome (outcome : Outcome)
  | reading (answer : Except Failure.Kind (Option Event))
  | event (e : Event)

/-- What a topic does for the errands of a call. -/
def outcomesOf (r : Registry) (name : String) (call : Call) : List Outcome :=
  match r.part name with
  | none => []
  | some t => (t.performAll (r.errandsOf name t call)).2

/-- What a call reads for a subscriber of a topic. -/
def readingsOf (r : Registry) (name : String) : Call → List (Except Failure.Kind (Option Event))
  | .next id => if id ∈ r.idsOf name then [reading ((r.next id).2.map some)] else []
  | .tryNext id => if id ∈ r.idsOf name then [reading (r.tryNext id).2] else []
  | _ => []

/-- Everything that a call lets see of a topic. -/
def sightings (r : Registry) (name : String) (call : Call) : List Sighting :=
  (r.outcomesOf name call).map .outcome ++ (r.readingsOf name call).map .reading ++
    (heard name (r.apply call).2).map .event

/-- Everything that calls let see of a topic. -/
def chronicle (r : Registry) (name : String) : List Call → List Sighting
  | [] => []
  | call :: calls => r.sightings name call ++ (r.apply call).1.chronicle name calls

/-- Whether a call concerns the topic of a name that watches an endpoint, where the subscribers of
the topic have the given identifiers. -/
def Call.concerns (settings : Settings) (name : String) (watched : Endpoint)
    (ids : List SubscriptionId) : Call → Bool
  | .create other _ | .createFrom other _ | .delete other | .key other | .subscribe other
  | .subscribeSink other _ | .advanceTopic other _ | .stats other | .save other
  | .load other _ => other == name
  | .unsubscribe id | .next id | .tryNext id => ids.contains id
  | .ingest device point _ | .advance device point _ => watched.isMet (aim settings device point)
  | .drain items => items.any fun item => watched.isMet (item.bind fun item => item.aim settings)
  | .advanceAll _ | .cleanUp => true
  | .names | .drainFaults => false

/-- Whether a call concerns a topic of the registry. -/
def concerns (r : Registry) (name : String) (call : Call) : Bool :=
  (r.part name).any fun t => call.concerns r.settings name t.topic.endpoint (r.idsOf name)

/-- The identifier at the place that an identifier has elsewhere. -/
def counterpart (ids others : List SubscriptionId) (id : SubscriptionId) : SubscriptionId :=
  others[ids.idxOf id]?.getD id

/-- A call with the identifiers at the same places. -/
def Call.renamed (ids others : List SubscriptionId) : Call → Call
  | .unsubscribe id => .unsubscribe (counterpart ids others id)
  | .next id => .next (counterpart ids others id)
  | .tryNext id => .tryNext (counterpart ids others id)
  | call => call

/-- The calls that concern a topic, as they are made on another registry with this topic. There its
subscribers may have other identifiers. -/
def alone (name : String) (r q : Registry) : List Call → List Call
  | [] => []
  | call :: calls =>
    if r.concerns name call then
      let renamed := call.renamed (r.idsOf name) (q.idsOf name)
      renamed :: alone name (r.apply call).1 (q.apply renamed).1 calls
    else alone name (r.apply call).1 q calls

/-- A call that does not concern a topic has no errands for it. -/
theorem errands_eq_nil {settings : Settings} {watched : Endpoint} {ids : List SubscriptionId}
    (h : call.concerns settings name watched ids = false) :
    call.errands settings name watched ids = [] := by
  cases call with
  | subscribe | subscribeSink | advanceTopic | load => simpa [Call.errands, Call.concerns] using h
  | unsubscribe | next | tryNext => simpa [Call.errands, Call.concerns] using h
  | ingest | advance => simpa [Call.errands, Call.concerns, Errand.aimed] using h
  | advanceAll => cases h
  | drain items =>
    simp only [Call.errands, Call.concerns] at h ⊢
    induction items with
    | nil => rfl
    | cons item items ih =>
      obtain ⟨hitem, hitems⟩ := Bool.or_eq_false_iff.mp h
      cases item with
      | error failure => rfl
      | ok item =>
        rw [Errand.ofItems]
        cases haim : item.aim settings with
        | error failure => rfl
        | ok aim =>
          have hmet : watched.isMet (.ok aim) = false := by rw [← haim]; exact hitem
          simp only [Errand.aimed, hmet, ih hitems]
          rfl
  | create | createFrom | delete | cleanUp | names | key | stats | save | drainFaults => rfl

theorem counterpart_spec {ids others : List SubscriptionId} {id : SubscriptionId}
    (hlength : others.length = ids.length) (hothers : others.Nodup) (hid : id ∈ ids) :
    counterpart ids others id ∈ others ∧
      others.idxOf (counterpart ids others id) = ids.idxOf id := by
  have hplace : ids.idxOf id < others.length := by
    rw [hlength]
    exact List.idxOf_lt_length_of_mem hid
  have heq : counterpart ids others id = others[ids.idxOf id] := by
    rw [counterpart, List.getElem?_eq_getElem hplace, Option.getD_some]
  rw [heq]
  exact ⟨List.getElem_mem hplace, hothers.idxOf_getElem _ hplace⟩

/-- Two registries that have the same of a topic. -/
structure Twins (name : String) (t : Part) (r q : Registry) : Prop where
  left : r.tables.Consistent
  right : q.tables.Consistent
  settings_eq : q.settings = r.settings
  left_part : r.part name = some t
  right_part : q.part name = some t

namespace Twins

theorem length_idsOf (h : Twins name t r q) : (q.idsOf name).length = (r.idsOf name).length := by
  obtain ⟨p, -, hp⟩ := part_eq_some h.left_part
  obtain ⟨p', -, hp'⟩ := part_eq_some h.right_part
  have hqueued := congrArg (fun t => t.queued.length) (hp'.symm.trans hp)
  simpa [idsOf] using hqueued

/-- A call that concerns a topic brings its counterpart the same errands. -/
theorem errandsOf_renamed (h : Twins name t r q)
    (hconcerns : call.concerns r.settings name t.topic.endpoint (r.idsOf name) = true) :
    q.errandsOf name t (call.renamed (r.idsOf name) (q.idsOf name)) = r.errandsOf name t call := by
  have hnodup := nodup_idsOf h.right name
  unfold errandsOf
  rw [h.settings_eq]
  cases call with
  | unsubscribe id | next id | tryNext id =>
    have hid : id ∈ r.idsOf name := by simpa [Call.concerns] using hconcerns
    obtain ⟨hmem, hplace⟩ := counterpart_spec h.length_idsOf hnodup hid
    simp only [Call.renamed, Call.errands, hmem, hplace, hid, if_true]
  | _ => rfl

/-- It also reads the same. -/
theorem readingsOf_renamed (h : Twins name t r q)
    (hconcerns : call.concerns r.settings name t.topic.endpoint (r.idsOf name) = true) :
    q.readingsOf name (call.renamed (r.idsOf name) (q.idsOf name)) = r.readingsOf name call := by
  have hnodup := nodup_idsOf h.right name
  cases call with
  | next id =>
    have hid : id ∈ r.idsOf name := by simpa [Call.concerns] using hconcerns
    obtain ⟨hmem, hplace⟩ := counterpart_spec h.length_idsOf hnodup hid
    simp only [Call.renamed, readingsOf, hmem, hid, if_true,
      (serves_next h.left h.left_part hid).2, (serves_next h.right h.right_part hmem).2, hplace]
  | tryNext id =>
    have hid : id ∈ r.idsOf name := by simpa [Call.concerns] using hconcerns
    obtain ⟨hmem, hplace⟩ := counterpart_spec h.length_idsOf hnodup hid
    simp only [Call.renamed, readingsOf, hmem, hid, if_true,
      (serves_tryNext h.left h.left_part hid).2, (serves_tryNext h.right h.right_part hmem).2,
      hplace]
  | _ => rfl

theorem concerns_eq (hpart : r.part name = some t) (call : Call) :
    r.concerns name call =
      call.concerns r.settings name t.topic.endpoint (r.idsOf name) := by
  rw [Registry.concerns, hpart, Option.any_some]

theorem outcomesOf_eq (hpart : r.part name = some t) (call : Call) :
    r.outcomesOf name call = (t.performAll (r.errandsOf name t call)).2 := by
  rw [outcomesOf, hpart]

/-- A call that does not concern the topic may be left out, -/
theorem skip (h : Twins name t r q) (hkeeps : call.Keeps name)
    (hconcerns : r.concerns name call = false) :
    Twins name t (r.apply call).1 q ∧ r.sightings name call = [] := by
  rw [concerns_eq h.left_part] at hconcerns
  have herrands : r.errandsOf name t call = [] := errands_eq_nil hconcerns
  have hsteps := steps_apply h.left.distinct call
  have hpart := part_apply h.left h.left_part hkeeps
  rw [herrands] at hpart
  refine ⟨⟨h.left.steps hsteps, h.right, h.settings_eq.trans hsteps.settings_eq.1.symm, hpart,
    h.right_part⟩, ?_⟩
  have hreadings : r.readingsOf name call = [] := by
    cases call with
    | next id | tryNext id =>
      have hid : id ∉ r.idsOf name := by simpa [Call.concerns] using hconcerns
      simp only [readingsOf, hid, if_false]
    | _ => rfl
  have hheard : heard name (r.apply call).2 = [] := by
    rw [heard_apply h.left h.left_part, herrands]
    exact ite_self _
  rw [sightings, outcomesOf_eq h.left_part, herrands, hreadings, hheard]
  rfl

/-- and one that concerns it has a counterpart, which lets see the same. -/
theorem keep (h : Twins name t r q) (hkeeps : call.Keeps name)
    (hconcerns : r.concerns name call = true) :
    Twins name (t.performAll (r.errandsOf name t call)).1 (r.apply call).1
        (q.apply (call.renamed (r.idsOf name) (q.idsOf name))).1 ∧
      q.sightings name (call.renamed (r.idsOf name) (q.idsOf name)) = r.sightings name call := by
  rw [concerns_eq h.left_part] at hconcerns
  have herrands := h.errandsOf_renamed hconcerns
  have hkeeps' : (call.renamed (r.idsOf name) (q.idsOf name)).Keeps name := by
    cases call <;> exact hkeeps
  have hpasses : (call.renamed (r.idsOf name) (q.idsOf name)).passes q.settings =
      call.passes r.settings := by
    rw [h.settings_eq]
    cases call <;> rfl
  have hleft := steps_apply h.left.distinct call
  have hright := steps_apply h.right.distinct (call.renamed (r.idsOf name) (q.idsOf name))
  have hpart := part_apply h.right h.right_part hkeeps'
  rw [herrands] at hpart
  refine ⟨⟨h.left.steps hleft, h.right.steps hright,
    hright.settings_eq.1.trans (h.settings_eq.trans hleft.settings_eq.1.symm),
    part_apply h.left h.left_part hkeeps, hpart⟩, ?_⟩
  rw [sightings, sightings, outcomesOf_eq h.right_part, outcomesOf_eq h.left_part,
    h.readingsOf_renamed hconcerns, heard_apply h.right h.right_part,
    heard_apply h.left h.left_part, herrands, hpasses]

/-- The calls that concern the topic let see the same alone, and leave twins. -/
theorem run {calls : List Call} (h : Twins name t r q) (hkeeps : ∀ call ∈ calls, call.Keeps name) :
    (∃ last, Twins name last (r.run calls).1 (q.run (alone name r q calls)).1) ∧
      q.chronicle name (alone name r q calls) = r.chronicle name calls := by
  -- A call that is left out keeps what the twins have of the topic; any other changes both alike.
  induction calls generalizing r q t with
  | nil => exact ⟨⟨t, h⟩, rfl⟩
  | cons call calls ih =>
    have hhead := hkeeps call List.mem_cons_self
    have hrest : ∀ c ∈ calls, c.Keeps name := fun c hc => hkeeps c (List.mem_cons_of_mem call hc)
    cases hconcerns : r.concerns name call with
    | false =>
      obtain ⟨hnext, hnothing⟩ := h.skip hhead hconcerns
      obtain ⟨hfinal, hchronicle⟩ := ih hnext hrest
      simp only [alone, hconcerns, Bool.false_eq_true, if_false, chronicle, hnothing,
        List.nil_append]
      exact ⟨hfinal, hchronicle⟩
    | true =>
      obtain ⟨hnext, hsame⟩ := h.keep hhead hconcerns
      obtain ⟨hfinal, hchronicle⟩ := ih hnext hrest
      simp only [alone, hconcerns, if_true, chronicle, hsame, hchronicle]
      exact ⟨hfinal, trivial⟩

end Twins

theorem stats_eq (hpart : r.part name = some t) : r.stats name = .ok t.topic.stats := by
  obtain ⟨p, hp, rfl⟩ := part_eq_some hpart
  rw [stats, topic_of_some hp, Pipeline.stats_anonymous]
  rfl

theorem save_eq (hpart : r.part name = some t) : r.save name = .ok t.topic.save := by
  obtain ⟨p, hp, rfl⟩ := part_eq_some hpart
  rw [save, topic_of_some hp, Pipeline.save_anonymous]
  rfl

/-- Neither what topics become by their work nor what one of them tells depends on their order. -/
theorem workAll_order {α : Type} {f : Pipeline → Pipeline × α × Effect} {work : Pipeline.Call}
    (h : r.tables.Consistent) (hwork : work.IsWork) (hstate : ∀ p, (f p).1 = (p.apply work).1)
    (heffect : ∀ p, (f p).2.2 = (p.apply work).2.2) (hpart : r.part name = some t)
    {names order : List String} (hnames : names.Nodup) (hperm : order.Perm names) :
    (r.workAll f order).1.topics = (r.workAll f names).1.topics ∧
      ((r.workAll f order).2.flatMap Prod.snd).filter (fun e => e.topic == name) =
        ((r.workAll f names).2.flatMap Prod.snd).filter fun e => e.topic == name := by
  have htopics := workAll_perm (name_of_work hwork hstate) (distinct_iff.mp h.distinct) hnames hperm
  have horder := serves_workAll h hwork hstate heffect hpart (hperm.nodup_iff.mpr hnames)
  simp only [hperm.mem_iff] at horder
  have hserves := serves_workAll h hwork hstate heffect hpart hnames
  exact ⟨htopics.1, horder.2.trans hserves.2.symm⟩

/-- Topics are independent: leaving out all calls that do not concern a topic changes nothing that
is seen of it. Nor does it matter in which order topics are visited. -/
theorem topics_are_independent (settings : Settings) (permits : Endpoint → Bool)
    (before calls : List Call)
    (hlive : (((new settings permits).run before).1.topic? name).isSome)
    (hkeeps : ∀ call ∈ calls, call.Keeps name) :
    let r := ((new settings permits).run before).1
    let full := (r.run calls).1
    let reduced := (r.run (alone name r r calls)).1
    r.chronicle name (alone name r r calls) = r.chronicle name calls ∧
      reduced.stats name = full.stats name ∧ reduced.save name = full.save name ∧
      ∃ t, full.part name = some t ∧ reduced.part name = some t ∧
        (∀ call : Call, call.Keeps name →
          (full.apply call).1.part name =
            some (t.performAll (full.errandsOf name t call)).1) ∧
        (∀ w order, order.Perm full.names →
          (full.advanceTopics w order).1.topics = (full.advanceAll w).1.topics ∧
            (full.advanceTopics w order).2.filter (fun e => e.topic == name) =
              (full.advanceAll w).2.filter fun e => e.topic == name) ∧
        ∀ s endpoint order, order.Perm (full.route endpoint) →
          (full.workAll (fun p => p.ingest s) order).1.topics =
              (full.ingestAt endpoint s).1.topics ∧
            ((full.workAll (fun p => p.ingest s) order).2.flatMap Prod.snd).filter
                (fun e => e.topic == name) =
              (full.ingestAt endpoint s).2.published.filter fun e => e.topic == name := by
  intro r full reduced
  have hr : r.tables.Consistent := consistent_run (consistent_new settings permits) before
  obtain ⟨p, hp⟩ := Option.isSome_iff_exists.mp hlive
  have hpart := part_of_some hp
  obtain ⟨⟨t, htwins⟩, hchronicle⟩ := Twins.run ⟨hr, hr, rfl, hpart, hpart⟩ hkeeps
  refine ⟨hchronicle, ?_, ?_, t, htwins.left_part, htwins.right_part, ?_, ?_, ?_⟩
  · rw [stats_eq htwins.left_part, stats_eq htwins.right_part]
  · rw [save_eq htwins.left_part, save_eq htwins.right_part]
  · exact fun call hcall => part_apply htwins.left htwins.left_part hcall
  · intro w order hperm
    have hwork : (Pipeline.Call.advance w).IsWork := trivial
    exact workAll_order (f := fun p => ((p.advance w).1, (), (p.advance w).2)) htwins.left hwork
      (fun _ => rfl) (fun _ => rfl) htwins.left_part (nodup_namesFor htwins.left none) hperm
  · intro s endpoint order hperm
    have hwork : (Pipeline.Call.ingest s).IsWork := trivial
    exact workAll_order (f := fun p => p.ingest s) htwins.left hwork (fun _ => rfl) (fun _ => rfl)
      htwins.left_part (nodup_route htwins.left endpoint) hperm

/-- Two topics on one endpoint and a third on another: of twelve calls four are errands for the
first one. Alone they are the same errands, although its subscriber then has the identifier that
went to another one before. -/
theorem topics_are_independent_renamed :
    let rule : Rule := ⟨2, some 5.0, none, .lowerIncluded, 1000, 1000, .last, none⟩
    let spec : TopicSpec := ⟨"boiler", "pressure", some 0, none, ⟨[rule], by decide +kernel⟩, rfl⟩
    let elsewhere : TopicSpec := { spec with point := "level" }
    let before : List Call := [.createFrom "t" spec, .createFrom "u" spec]
    let calls : List Call := [.subscribe "u", .subscribe "t", .createFrom "v" elsewhere,
      .createFrom "u" spec, .unsubscribe (.issue 0), .ingest "boiler" "pressure" ⟨300, .integer 7⟩,
      .delete "u", .ingest "boiler" "level" ⟨300, .integer 8⟩, .unsubscribe (.issue 7),
      .advanceTopic "v" 900, .advanceTopic "t" 1000, .tryNext (.issue 1)]
    let r := ((new .standard fun _ => true).run before).1
    let kept := alone "t" r r calls
    let asked (ids : List SubscriptionId) (call : Call) :=
      (call.errands .standard "t" ⟨none, none, "boiler", "pressure"⟩ ids).length
    (r.topic? "t").isSome ∧ (∀ call ∈ calls, call.Keeps "t") ∧
      calls.map (asked [.issue 1]) = [0, 1, 0, 0, 0, 1, 0, 0, 0, 0, 1, 1] ∧
      kept.map (asked [.issue 0]) = [1, 1, 1, 1] ∧
      ((r.run calls).2.flatMap (heard "t")).map Event.timestamp = [1000] ∧
      r.chronicle "t" kept = r.chronicle "t" calls := by
  intro rule spec elsewhere before calls r kept asked
  have hlive : (r.topic? "t").isSome := by decide +kernel
  have hkeeps : ∀ call ∈ calls, call.Keeps "t" := by simp [calls, Call.Keeps]
  refine ⟨hlive, hkeeps, ?_, ?_, ?_,
    (topics_are_independent .standard (fun _ => true) before calls hlive hkeeps).1⟩
  · decide +kernel
  · decide +kernel
  · decide +kernel

end Registry

end TelemetryBands
