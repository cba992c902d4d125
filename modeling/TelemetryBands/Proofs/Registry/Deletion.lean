import TelemetryBands.Proofs.Registry.Accounts

/-!
# Nothing is delivered after deletion

When a topic is deleted, those who subscribed to it are put aside with their sinks closed, and
nothing that is asked of the registry later finds them again: not their identifiers, which no other
subscriber gets, and not the name of the topic, which a new topic may have.
-/

namespace TelemetryBands.Registry

variable {r q : Registry} {name : String} {p : Pipeline}

/-- Everyone who ever subscribed, with all that was handed over. -/
def everyone (r : Registry) : List Subscriber :=
  (r.topics.flatMap fun p => p.dispatcher.everyone) ++ r.retired

theorem map_id_everyone (r : Registry) : r.everyone.map Subscriber.id = r.tables.ids := by
  have hids : ∀ p : Pipeline, p.dispatcher.everyone.map Subscriber.id = p.face.roll.ids := by
    intro p
    have hroll : p.face.roll.everyone = p.dispatcher.everyone.map Subscriber.card :=
      p.dispatcher.roll_everyone
    rw [Roll.ids, hroll, List.map_map]
    rfl
  simp only [everyone, List.map_append, List.map_flatMap, hids, Tables.ids, tables,
    List.flatMap_map]

/-- An identifier stands for one subscriber. -/
theorem filter_everyone (h : r.tables.Accounted) {s : Subscriber} (hs : s ∈ r.everyone) :
    r.everyone.filter (fun x => x.id == s.id) = [s] := by
  have hids : (r.everyone.map Subscriber.id).Nodup := by
    rw [map_id_everyone]
    exact h.single
  apply List.perm_singleton.mp
  rw [List.perm_ext_iff_of_nodup ((List.Nodup.of_map _ hids).filter _) (List.nodup_singleton s)]
  intro x
  rw [List.mem_filter, List.mem_singleton, beq_iff_eq]
  constructor
  · rintro ⟨hx, hid⟩
    exact List.inj_on_of_nodup_map hids hx hs hid
  · rintro rfl
    exact ⟨hs, rfl⟩

/-- What remains of a topic that was deleted: nothing came to those who subscribed to it since,
their sinks were closed, and their subscriptions are unknown. -/
structure Over (p : Pipeline) (q : Registry) : Prop where
  subscribers : ∀ s ∈ p.dispatcher.subscribers,
    q.everyone.filter (fun x => x.id == s.id) = [s.close] ∧
      s.close.offered = s.offered ∧ s.close.closes = 1
  handles : ∀ s ∈ p.dispatcher.everyone, ∃ failure : Failure, failure.kind = .notFound ∧
    q.next s.id = (q, .error failure) ∧ q.tryNext s.id = (q, .error failure) ∧
      q.unsubscribe s.id = (q, .error failure)

theorem subscription?_eq_none {id : SubscriptionId}
    (h : id ∉ r.subscriptions.map Subscription.id) : r.subscription? id = none := by
  rw [subscription?, List.find?_eq_none]
  intro s hs heq
  exact h (List.mem_map.mpr ⟨s, hs, by simpa using heq⟩)

/-- A topic whose subscribers are put aside is over. -/
theorem over_of_subset (hopen : p.dispatcher.roll.Open) (hconsistent : q.tables.Consistent)
    (haccounted : q.tables.Accounted) (hsub : p.shutDown.dispatcher.departed ⊆ q.retired) :
    Over p q where
  subscribers := by
    intro s hs
    have hclose : s.close ∈ q.retired :=
      hsub (List.mem_append_right _ (List.mem_map_of_mem hs))
    have hcloses : s.closes = 0 := hopen s.card (List.mem_map_of_mem hs)
    refine ⟨filter_everyone haccounted (List.mem_append_right _ hclose), rfl, ?_⟩
    rw [Subscriber.close, hcloses]
  handles := by
    intro s hs
    have hkept : ∃ x ∈ q.retired, x.id = s.id := by
      rcases List.mem_append.mp hs with hs | hs
      · exact ⟨s, hsub (List.mem_append_left _ hs), rfl⟩
      · exact ⟨s.close, hsub (List.mem_append_right _ (List.mem_map_of_mem hs)), rfl⟩
    obtain ⟨x, hx, hid⟩ := hkept
    have hnone : q.subscription? s.id = none := by
      rw [← hid]
      exact subscription?_eq_none (haccounted.not_subscribed hconsistent hx)
    refine ⟨noSubscription s.id, rfl, ?_, ?_, ?_⟩
    · simp only [next, queueOf, hnone]
    · simp only [tryNext, queueOf, hnone]
    · simp only [unsubscribe, hnone]

theorem accounted_new (settings : Settings) (permits : Endpoint → Bool) :
    (new settings permits).tables.Accounted where
  single := List.nodup_nil
  issued := by simp [tables, new, Tables.ids]
  unclosed := by simp [tables, new]

/-- Deleting the topics of some names puts the subscribers of each aside. -/
theorem retired_deleteAll {names : List String} (hmem : name ∈ names)
    (hp : r.topic? name = some p) :
    p.shutDown.dispatcher.departed ⊆
      (names.foldl (fun r name => (r.delete name).1) r).retired := by
  induction names generalizing r with
  | nil => cases hmem
  | cons first names ih =>
    rw [List.foldl_cons]
    by_cases hfirst : first = name
    · rw [hfirst, delete_of_some hp]
      have hprefix := (steps_deleteAll (r := r.uninstall p) names).retired_grows
      exact fun s hs => hprefix.subset (List.mem_append_right _ hs)
    · apply ih ((List.mem_cons.mp hmem).resolve_left (Ne.symm hfirst))
      cases hfind : r.topic? first with
      | none =>
        rw [delete, topic_of_none hfind]
        exact hp
      | some other =>
        rw [delete_of_some hfind]
        have hname : other.name = first := (mem_of_topic? hfind).2
        exact (topic?_uninstall (hname ▸ hfirst)).trans hp

end TelemetryBands.Registry
