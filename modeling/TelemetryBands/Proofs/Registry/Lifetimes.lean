import TelemetryBands.Proofs.Registry.Requests

/-!
# How long subscriptions last

A subscription is in the tables from the call that answers with it to the first call that deletes
its topic, deletes all topics or ends it by its identifier. No other call takes it out, and nothing
puts its identifier into the tables again.
-/

namespace TelemetryBands

/-- No change of the tables takes an identifier back. -/
theorem Tables.Steps.issued_le {t u : Tables} (hsteps : Steps t u) : t.issued ≤ u.issued := by
  induction hsteps with
  | refl => exact Nat.le_refl _
  | tail _ hstep ih =>
    cases hstep with
    | enrol f queued => exact Nat.le_succ_of_le ih
    | _ => exact ih

namespace Registry

variable {r : Registry} {s : Subscription} {call : Call}

/-- Whether a call ends a subscription. -/
def Call.ends (s : Subscription) : Call → Bool
  | .delete name => s.topic == name
  | .cleanUp => true
  | .unsubscribe id => s.id == id
  | _ => false

/-- The subscription that is issued next, if there is the topic for it. -/
def nextEntry (r : Registry) (topic : String) (queued : Bool) : List Subscription :=
  if (r.topic? topic).isSome then [⟨.issue r.issued, topic, queued⟩] else []

/-- What a call adds to the subscriptions. -/
def Call.begun (r : Registry) : Call → List Subscription
  | .subscribe topic => r.nextEntry topic true
  | .subscribeSink topic _ => r.nextEntry topic false
  | _ => []

theorem id_of_mem_nextEntry {topic : String} {queued : Bool} (h : s ∈ r.nextEntry topic queued) :
    s.id = .issue r.issued := by
  unfold nextEntry at h
  split at h
  · rw [List.mem_singleton.mp h]
  · cases h

theorem Call.id_of_mem_begun (h : s ∈ call.begun r) : s.id = .issue r.issued := by
  cases call with
  | subscribe topic => exact id_of_mem_nextEntry h
  | subscribeSink topic sink => exact id_of_mem_nextEntry h
  | _ => cases h

theorem subscriptions_createFrom (r : Registry) (name : String) (spec : TopicSpec) :
    (r.createFrom name spec).1.subscriptions = r.subscriptions := by
  unfold createFrom
  cases r.examine name spec <;> rfl

theorem subscriptions_create (r : Registry) (name text : String) :
    (r.create name text).1.subscriptions = r.subscriptions := by
  unfold create
  cases TopicSpec.parse text with
  | error flaw => rfl
  | ok spec => exact r.subscriptions_createFrom name spec

theorem subscriptions_delete (h : r.tables.Consistent) (name : String) :
    (r.delete name).1.subscriptions = r.subscriptions.filter fun s => s.topic != name := by
  cases hfind : r.topic? name with
  | none =>
    rw [delete, topic_of_none hfind, eq_comm, List.filter_eq_self]
    intro s hs
    obtain ⟨p, hp⟩ := (agrees h).known s hs
    have hne : s.topic ≠ name := by
      rintro rfl
      rw [hp] at hfind
      cases hfind
    simpa using hne
  | some p =>
    have hname : p.name = name := (mem_of_topic? hfind).2
    rw [delete_of_some hfind, ← hname]
    rfl

theorem subscriptions_deleteAll (h : r.tables.Consistent) (names : List String) :
    (names.foldl (fun r name => (r.delete name).1) r).subscriptions =
      r.subscriptions.filter fun s => !names.contains s.topic := by
  induction names generalizing r with
  | nil => simp
  | cons name names ih =>
    rw [List.foldl_cons, ih (h.steps (steps_delete name)), subscriptions_delete h,
      List.filter_filter]
    apply List.filter_congr
    intro s _
    rw [List.contains_cons, Bool.not_or, Bool.and_comm]
    rfl

theorem subscriptions_cleanUp (h : r.tables.Consistent) : r.cleanUp.1.subscriptions = [] := by
  rw [cleanUp, subscriptions_deleteAll h, List.filter_eq_nil_iff]
  intro s hs
  obtain ⟨p, hp⟩ := (agrees h).known s hs
  obtain ⟨hmem, hname⟩ := mem_of_topic? hp
  have hnames : s.topic ∈ r.names := by
    rw [r.names_perm.mem_iff, ← hname]
    exact List.mem_map_of_mem hmem
  simpa using hnames

theorem subscriptions_attach (r : Registry) (topic : String) (sink : Sink) (queued : Bool) :
    (r.attach topic sink queued).1.subscriptions = r.subscriptions ++ r.nextEntry topic queued := by
  unfold nextEntry
  cases hfind : r.topic? topic with
  | none =>
    rw [attach_of_none hfind]
    simp
  | some p =>
    rw [attach_of_some hfind]
    rfl

theorem subscriptions_unsubscribe (r : Registry) (id : SubscriptionId) :
    (r.unsubscribe id).1.subscriptions = r.subscriptions.filter fun s => s.id != id := by
  cases hentry : r.subscription? id with
  | none =>
    rw [unsubscribe_of_none hentry, eq_comm, List.filter_eq_self]
    intro s hs
    have hne := List.find?_eq_none.mp hentry s hs
    simpa using hne
  | some s =>
    rw [unsubscribe_of_some hentry]
    cases (r.forget id).topic? s.topic <;> rfl

/-- A call takes out the subscriptions that it ends and adds the one that it begins. -/
theorem subscriptions_apply (h : r.tables.Consistent) (call : Call) :
    (r.apply call).1.subscriptions =
      (r.subscriptions.filter fun s => !call.ends s) ++ call.begun r := by
  -- A call that leaves the subscriptions as they are ends none and begins none.
  have hkeep : ∀ {q : Registry}, q.subscriptions = r.subscriptions →
      q.subscriptions = (r.subscriptions.filter fun _ => !false) ++ [] := by
    intro q hq
    simpa using hq
  have hquiet : ∀ {q : Registry}, q.tables = r.tables → q.subscriptions = r.subscriptions :=
    fun hq => congrArg Tables.subscriptions hq
  have hadd : ∀ {q : Registry} {begun : List Subscription},
      q.subscriptions = r.subscriptions ++ begun →
        q.subscriptions = (r.subscriptions.filter fun _ => !false) ++ begun := by
    intro q begun hq
    simpa using hq
  have hdistinct := h.distinct
  cases call with
  | create name text => exact hkeep (r.subscriptions_create name text)
  | createFrom name spec => exact hkeep (r.subscriptions_createFrom name spec)
  | delete name => exact (subscriptions_delete h name).trans (List.append_nil _).symm
  | cleanUp =>
    have hclean := subscriptions_cleanUp h
    simpa [apply, Call.ends, Call.begun] using hclean
  | subscribe topic => exact hadd (r.subscriptions_attach topic _ true)
  | subscribeSink topic sink => exact hadd (r.subscriptions_attach topic sink false)
  | unsubscribe id => exact (r.subscriptions_unsubscribe id).trans (List.append_nil _).symm
  | next id => exact hkeep (hquiet (tables_next hdistinct id))
  | tryNext id => exact hkeep (hquiet (tables_tryNext hdistinct id))
  | ingest device point s =>
    simp only [apply]
    exact hkeep (hquiet (tables_ingest hdistinct device point s))
  | advance device point w =>
    simp only [apply]
    exact hkeep (hquiet (tables_advance hdistinct device point w))
  | advanceTopic name w =>
    simp only [apply]
    exact hkeep (hquiet (tables_advanceTopic hdistinct name w))
  | advanceAll w =>
    simp only [apply]
    exact hkeep (hquiet (tables_advanceTopics hdistinct w r.names))
  | drain items =>
    simp only [apply]
    exact hkeep (hquiet (tables_drainFrom hdistinct .zero items))
  | load name text =>
    simp only [apply]
    exact hkeep (hquiet (tables_load hdistinct name text))
  | drainFaults | names | key | stats | save => exact hkeep rfl

/-- The identifier was issued, and its subscription is over. -/
structure Forgotten (r : Registry) (id : SubscriptionId) : Prop where
  issued : ∃ n < r.issued, id = .issue n
  absent : id ∉ r.subscriptions.map Subscription.id

theorem issued_le_apply (h : r.tables.Consistent) (call : Call) :
    r.issued ≤ (r.apply call).1.issued :=
  (steps_apply h.distinct call).issued_le

/-- An identifier that was issued is not begun again. -/
theorem Call.not_mem_begun {id : SubscriptionId} {n : Nat} (hn : n < r.issued)
    (hid : id = .issue n) : id ∉ (call.begun r).map Subscription.id := by
  rw [List.mem_map]
  rintro ⟨s, hs, heq⟩
  have hissue : SubscriptionId.issue r.issued = .issue n :=
    (Call.id_of_mem_begun hs).symm.trans (heq.trans hid)
  have hsame := SubscriptionId.issue_injective hissue
  omega

/-- What is over stays over. -/
theorem Forgotten.apply {id : SubscriptionId} (hforgotten : r.Forgotten id)
    (h : r.tables.Consistent) (call : Call) : (r.apply call).1.Forgotten id := by
  obtain ⟨n, hn, hid⟩ := hforgotten.issued
  refine ⟨⟨n, hn.trans_le (issued_le_apply h call), hid⟩, ?_⟩
  rw [subscriptions_apply h, List.map_append, List.mem_append, not_or]
  refine ⟨fun hmem => hforgotten.absent ?_, Call.not_mem_begun hn hid⟩
  exact (List.filter_sublist.map _).subset hmem

/-- A call that ends a subscription leaves nothing of its identifier. -/
theorem forgotten_apply (h : r.tables.Consistent) (hs : s ∈ r.subscriptions)
    (hends : call.ends s = true) : (r.apply call).1.Forgotten s.id := by
  obtain ⟨n, hn, hid⟩ := h.issued s hs
  refine ⟨⟨n, hn.trans_le (issued_le_apply h call), hid⟩, ?_⟩
  rw [subscriptions_apply h, List.map_append, List.mem_append, not_or]
  refine ⟨fun hmem => ?_, Call.not_mem_begun hn hid⟩
  obtain ⟨s', hs', heq⟩ := List.mem_map.mp hmem
  obtain ⟨hmem', hkept⟩ := List.mem_filter.mp hs'
  rw [h.eq_of_id hmem' hs heq, hends] at hkept
  cases hkept

/-- A call that does not end a subscription leaves it. -/
theorem mem_apply (h : r.tables.Consistent) (hs : s ∈ r.subscriptions)
    (hends : call.ends s = false) : s ∈ (r.apply call).1.subscriptions := by
  rw [subscriptions_apply h]
  exact List.mem_append_left _ (List.mem_filter.mpr ⟨hs, by simp [hends]⟩)

theorem Forgotten.run {id : SubscriptionId} (hforgotten : r.Forgotten id)
    (h : r.tables.Consistent) (calls : List Call) : (r.run calls).1.Forgotten id := by
  induction calls generalizing r with
  | nil => exact hforgotten
  | cons call calls ih =>
    exact ih (hforgotten.apply h call) (consistent_apply h call)

/-- A subscription lasts until it is ended, and then it is over for good. -/
theorem lasts_run (h : r.tables.Consistent) (hs : s ∈ r.subscriptions) (calls : List Call) :
    if calls.any fun call => call.ends s then (r.run calls).1.Forgotten s.id
    else s ∈ (r.run calls).1.subscriptions := by
  induction calls generalizing r with
  | nil => exact hs
  | cons call calls ih =>
    have hnext := consistent_apply h call
    rw [List.any_cons]
    cases hends : call.ends s with
    | true => exact (forgotten_apply h hs hends).run hnext calls
    | false => exact ih hnext (mem_apply h hs hends)

end Registry

end TelemetryBands
