import Mathlib.Data.List.Perm.Basic
import TelemetryBands.Proofs.Registry.Consistency
import TelemetryBands.Proofs.Topic.Silence

/-!
# The account of all subscribers

A registry keeps account of everyone who ever subscribed: those present and departed of its topics,
and those of the topics that are gone. Nobody is on the account twice, so an identifier stands for
one subscriber for ever, whatever becomes of the topic.
-/

namespace TelemetryBands

namespace Roll

variable {roll : Roll}

/-- The identifiers of everyone on a roll. -/
def ids (roll : Roll) : List SubscriptionId :=
  roll.everyone.map Card.id

theorem ids_add_perm (roll : Roll) (id : SubscriptionId) :
    (roll.add id).ids.Perm (id :: roll.ids) :=
  (roll.everyone_add_perm id).map Card.id

theorem ids_remove_perm (roll : Roll) (id : SubscriptionId) :
    (roll.remove id).ids.Perm roll.ids :=
  roll.everyone_remove_perm Card.id (fun _ => rfl) id

theorem ids_closeAll (roll : Roll) : roll.closeAll.ids = roll.ids :=
  roll.everyone_closeAll Card.id fun _ => rfl

end Roll

namespace Tables

variable {t : Tables} {f : Face}

/-- The identifiers of everyone who ever subscribed. -/
def ids (t : Tables) : List SubscriptionId :=
  t.faces.flatMap (fun f => f.roll.ids) ++ t.retired.map Subscriber.id

/-- The identifiers of everyone who ever subscribed, but not to the topic of a name. -/
def otherIds (t : Tables) (name : String) : List SubscriptionId :=
  (t.faces.filter fun g => g.name != name).flatMap (fun f => f.roll.ids) ++
    t.retired.map Subscriber.id

/-- A topic can be taken from the others. -/
theorem faces_perm (h : t.Distinct) (hmem : f ∈ t.faces) :
    t.faces.Perm (f :: t.faces.filter fun g => g.name != f.name) := by
  have herase : t.faces.erase f = t.faces.filter fun g => g.name != f.name := by
    rw [(List.Nodup.of_map _ h).erase_eq_filter]
    apply List.filter_congr
    intro g hg
    by_cases hname : g.name = f.name
    · have heq : g = f := List.inj_on_of_nodup_map h hg hmem hname
      rw [heq, bne_self_eq_false, bne_self_eq_false]
    · have hne : g ≠ f := fun heq => hname (congrArg Face.name heq)
      rw [bne_iff_ne.mpr hne, bne_iff_ne.mpr hname]
  rw [← herase]
  exact List.perm_cons_erase hmem

theorem ids_update_perm (h : t.Distinct) (hmem : f ∈ t.faces) (change : Roll → Roll) :
    { t with faces := t.faces.map (Face.update f.name change) }.ids.Perm
      ((change f.roll).ids ++ t.otherIds f.name) := by
  have hothers : (t.faces.filter fun g => g.name != f.name).map (Face.update f.name change) =
      t.faces.filter fun g => g.name != f.name := by
    conv_rhs => rw [← List.map_id (t.faces.filter _)]
    apply List.map_congr_left
    intro g hg
    exact Face.update_of_ne (by simpa using (List.mem_filter.mp hg).2) change
  have hperm := (faces_perm h hmem).map (Face.update f.name change)
  rw [List.map_cons, hothers, Face.update_of_eq rfl] at hperm
  have hids := (hperm.flatMap_right fun f => f.roll.ids).append_right (t.retired.map Subscriber.id)
  rw [List.flatMap_cons, List.append_assoc] at hids
  exact hids

theorem ids_perm (h : t.Distinct) (hmem : f ∈ t.faces) :
    t.ids.Perm (f.roll.ids ++ t.otherIds f.name) := by
  have hperm := ids_update_perm h hmem id
  rw [Face.update_id, List.map_id] at hperm
  exact hperm

/-- Nobody is on the account twice, and no sink of a subscriber was closed. -/
structure Accounted (t : Tables) : Prop where
  single : t.ids.Nodup
  issued : ∀ id ∈ t.ids, ∃ n < t.issued, id = .issue n
  unclosed : ∀ f ∈ t.faces, f.roll.Open

namespace Accounted

theorem of_perm {u : Tables} (h : t.Accounted) (hperm : u.ids.Perm t.ids)
    (hissued : u.issued = t.issued) (hopen : ∀ f ∈ u.faces, f.roll.Open) : u.Accounted where
  single := hperm.nodup_iff.mpr h.single
  issued := by
    intro id hid
    rw [hissued]
    exact h.issued id (hperm.mem_iff.mp hid)
  unclosed := hopen

theorem install (h : t.Accounted) (name : String) (endpoint : Endpoint) :
    (t.install name endpoint).Accounted := by
  apply h.of_perm
  · simp [ids, Tables.install, Roll.ids, Roll.everyone]
  · rfl
  · intro f hf
    rcases List.mem_append.mp hf with hf | hf
    · exact h.unclosed f hf
    · rw [List.mem_singleton.mp hf]
      exact Roll.Open.closeAll ⟨[], [], 0⟩

theorem uninstall (h : t.Accounted) (hdistinct : t.Distinct) {gone : List Subscriber}
    (hmem : f ∈ t.faces) (hgone : gone.map Subscriber.card = f.roll.closeAll.departed) :
    (t.uninstall f gone).Accounted := by
  have hids : gone.map Subscriber.id = f.roll.ids := by
    have hcards := congrArg (List.map Card.id) hgone
    rw [List.map_map] at hcards
    rw [← f.roll.ids_closeAll, Roll.ids, Roll.everyone]
    simp only [Roll.closeAll, List.append_nil] at hcards ⊢
    exact hcards
  apply h.of_perm
  · refine List.Perm.trans ?_ (ids_perm hdistinct hmem).symm
    simp only [ids, Tables.uninstall, List.map_append, hids, ← List.append_assoc]
    exact List.perm_append_comm
  · rfl
  · exact fun g hg => h.unclosed g (List.mem_of_mem_filter hg)

theorem enrol (h : t.Accounted) (hdistinct : t.Distinct) (hmem : f ∈ t.faces) (queued : Bool) :
    (t.enrol f.name queued).Accounted := by
  have hperm : (t.enrol f.name queued).ids.Perm (.issue t.issued :: t.ids) := by
    have hupdate := ids_update_perm hdistinct hmem fun roll => roll.add (.issue t.issued)
    refine hupdate.trans (((f.roll.ids_add_perm _).append_right _).trans ?_)
    exact (ids_perm hdistinct hmem).symm.cons _
  refine ⟨hperm.nodup_iff.mpr (List.nodup_cons.mpr ⟨?_, h.single⟩), ?_, ?_⟩
  · intro hid
    obtain ⟨n, hn, hissue⟩ := h.issued _ hid
    have heq := SubscriptionId.issue_injective hissue
    omega
  · intro id hid
    rcases List.mem_cons.mp (hperm.mem_iff.mp hid) with rfl | hid
    · exact ⟨t.issued, Nat.lt_succ_self _, rfl⟩
    · obtain ⟨n, hn, hissue⟩ := h.issued id hid
      exact ⟨n, Nat.lt_succ_of_lt hn, hissue⟩
  · exact Face.forall_roll_update (fun _ hroll => hroll.add _) h.unclosed

theorem dismiss (h : t.Accounted) (hconsistent : t.Consistent) {s : Subscription}
    (hmem : s ∈ t.subscriptions) : (t.dismiss s).Accounted := by
  obtain ⟨f, hf, hname⟩ := hconsistent.known s hmem
  apply h.of_perm
  · have hupdate := ids_update_perm hconsistent.distinct hf fun roll => roll.remove s.id
    rw [hname] at hupdate
    refine hupdate.trans (((f.roll.ids_remove_perm _).append_right _).trans ?_)
    rw [← hname]
    exact (ids_perm hconsistent.distinct hf).symm
  · rfl
  · exact Face.forall_roll_update (fun _ hroll => hroll.remove _) h.unclosed

/-- Every change keeps the account. -/
theorem step {u : Tables} (h : t.Accounted) (hconsistent : t.Consistent) (hstep : Step t u) :
    u.Accounted := by
  cases hstep with
  | install name endpoint hnew hroom => exact h.install name endpoint
  | uninstall f gone hmem hgone => exact h.uninstall hconsistent.distinct hmem hgone
  | enrol f queued hmem => exact h.enrol hconsistent.distinct hmem queued
  | dismiss s hmem => exact h.dismiss hconsistent hmem

theorem steps {u : Tables} (h : t.Accounted) (hconsistent : t.Consistent) (hsteps : Steps t u) :
    u.Accounted := by
  induction hsteps with
  | refl => exact h
  | tail hsteps hstep ih => exact ih.step (hconsistent.steps hsteps) hstep

end Accounted

/-- Who is kept of a topic that is gone has no subscription any more. -/
theorem Accounted.not_subscribed (h : t.Accounted) (hconsistent : t.Consistent) {s : Subscriber}
    (hs : s ∈ t.retired) : s.id ∉ t.subscriptions.map Subscription.id := by
  intro hid
  -- The entry would be that of someone present, who would then be on the account twice.
  obtain ⟨entry, hentry, hentryId⟩ := List.mem_map.mp hid
  obtain ⟨f, hf, hname⟩ := hconsistent.known entry hentry
  have hpresent : s.id ∈ f.roll.present.map Card.id := by
    rw [hconsistent.attached f hf, ← hentryId]
    refine List.mem_map_of_mem (List.mem_filter.mpr ⟨hentry, ?_⟩)
    simp [hname]
  have hlive : s.id ∈ t.faces.flatMap fun f => f.roll.ids := by
    refine List.mem_flatMap.mpr ⟨f, hf, ?_⟩
    rw [Roll.ids, Roll.everyone, List.map_append]
    exact List.mem_append_right _ hpresent
  exact (List.nodup_append'.mp h.single).2.2 hlive (List.mem_map_of_mem hs)

end Tables

end TelemetryBands
