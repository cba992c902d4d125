import Mathlib.Data.List.Forall2
import TelemetryBands.Proofs.Topic.Advance
import TelemetryBands.Proofs.Window.Postponement

/-!
# Topics that mirror each other

Two topics mirror each other if they have the same standing and watermark and their windows differ
in arrival numbers and counts only. Mirrored topics answer watermarks alike. They answer samples
alike as well, although they need not remember the same latest sample: wherever a topic's watermark
has followed its latest sample, an earlier sample moves nothing.
-/

namespace TelemetryBands.Pipeline

variable {α : Type} {as bs : List Aggregator} {p q : Pipeline}

/-- What mirrored aggregators have in common is the same for the whole list. -/
theorem map_eq_of_mirrors {f : Aggregator → α} (h : List.Forall₂ Aggregator.Mirrors as bs)
    (hf : ∀ {a b}, a.Mirrors b → f a = f b) : as.map f = bs.map f := by
  induction h with
  | nil => rfl
  | cons hab _ ih => rw [List.map_cons, List.map_cons, hf hab, ih]

/-- What samples and watermarks leave alone in a topic. -/
structure Identity where
  name : String
  endpoint : Endpoint
  spec : TopicSpec
  policy : WatermarkPolicy
  deleted : Bool

/-- What samples and watermarks leave alone in this topic. -/
def identity (p : Pipeline) : Identity :=
  ⟨p.name, p.endpoint, p.spec, p.policy, p.deleted⟩

/-- A topic mirrors another one if what a watermark asks of them is the same in both. -/
structure Mirrors (q p : Pipeline) : Prop where
  identity_eq : q.identity = p.identity
  standing_eq : q.standing = p.standing
  watermark_eq : q.watermark = p.watermark
  aggregators : List.Forall₂ Aggregator.Mirrors q.aggregators p.aggregators

namespace Mirrors

theorem name_eq (h : q.Mirrors p) : q.name = p.name :=
  congrArg Identity.name h.identity_eq

theorem endpoint_eq (h : q.Mirrors p) : q.endpoint = p.endpoint :=
  congrArg Identity.endpoint h.identity_eq

theorem spec_eq (h : q.Mirrors p) : q.spec = p.spec :=
  congrArg Identity.spec h.identity_eq

theorem policy_eq (h : q.Mirrors p) : q.policy = p.policy :=
  congrArg Identity.policy h.identity_eq

theorem deleted_eq (h : q.Mirrors p) : q.deleted = p.deleted :=
  congrArg Identity.deleted h.identity_eq

/-- Mirrored topics skip the same watermarks. -/
theorem skips_eq (h : q.Mirrors p) (w : Millis) : q.skips w = p.skips w := by
  rw [skips, skips, hasReached, hasReached, h.deleted_eq, h.watermark_eq]

/-- The same closes are due. -/
theorem due_eq (h : q.Mirrors p) (w : Millis) : q.due w = p.due w := by
  have hmap : (q.aggregators.map fun a => (a.closeThrough w).2) =
      p.aggregators.map fun a => (a.closeThrough w).2 :=
    map_eq_of_mirrors h.aggregators fun hab => (hab.closeThrough w).2
  simp only [due, closeThrough, List.flatMap_def, List.map_map, Function.comp_def, hmap]

theorem verdict_eq (h : q.Mirrors p) (w : Millis) : q.verdict w = p.verdict w := by
  rw [verdict, verdict, h.standing_eq, h.spec_eq, h.due_eq]

/-- The same rulings have the same effect. -/
theorem effectOf_eq (h : q.Mirrors p) (w : Millis) (rulings : List (WindowClose × Ruling)) :
    q.effectOf w rulings = p.effectOf w rulings := by
  have hevent : q.eventFor? w = p.eventFor? w := by
    funext closed
    obtain ⟨c, ruling⟩ := closed
    cases ruling <;> simp [eventFor?, eventOf, h.name_eq, h.endpoint_eq]
  have hfault : q.faultFor? = p.faultFor? := by
    funext closed
    obtain ⟨c, ruling⟩ := closed
    cases ruling <;> simp [faultFor?, evaluationFault, h.name_eq]
  rw [effectOf, effectOf, hevent, hfault]

/-- Mirrored topics answer a watermark alike and mirror each other afterwards. -/
theorem advance (h : q.Mirrors p) (w : Millis) :
    (q.advance w).1.Mirrors (p.advance w).1 ∧ (q.advance w).2 = (p.advance w).2 := by
  cases hskips : p.skips w with
  | true =>
    rw [advance_of_skips hskips, advance_of_skips ((h.skips_eq w).trans hskips)]
    exact ⟨h, rfl⟩
  | false =>
    rw [advance_of_new hskips, advance_of_new ((h.skips_eq w).trans hskips), h.verdict_eq,
      h.effectOf_eq]
    refine ⟨⟨h.identity_eq, rfl, rfl, ?_⟩, rfl⟩
    show List.Forall₂ _ (q.aggregators.map fun a => (a.closeThrough w).1)
      (p.aggregators.map fun a => (a.closeThrough w).1)
    rw [List.forall₂_map_left_iff, List.forall₂_map_right_iff]
    exact h.aggregators.imp fun a b hab => (hab.closeThrough w).1

end Mirrors

/-- A topic trails its samples if its watermark is where the latest of them moves it, or beyond. -/
def Trails (p : Pipeline) : Prop :=
  ∀ lateness latest, p.policy = .eventTime lateness → p.latestSeen = some latest →
    p.skips (latest.satSub lateness) = true

/-- The latest sample has no part in what a watermark does. -/
theorem advance_latestSeen (p : Pipeline) (latest : Option Millis) (w : Millis) :
    { p with latestSeen := latest }.advance w =
      ({ (p.advance w).1 with latestSeen := latest }, (p.advance w).2) := by
  cases hskips : p.skips w with
  | true =>
    have hskips' : { p with latestSeen := latest }.skips w = true := hskips
    rw [advance_of_skips hskips, advance_of_skips hskips']
  | false =>
    have hskips' : { p with latestSeen := latest }.skips w = false := hskips
    rw [advance_of_new hskips, advance_of_new hskips']
    rfl

/-- A watermark that is skipped is skipped after every other one. -/
theorem skips_advance_of_skips {v : Millis} (h : p.skips v = true) (w : Millis) :
    (p.advance w).1.skips v = true := by
  cases hskips : p.skips w with
  | true =>
    rw [advance_of_skips hskips]
    exact h
  | false =>
    have hle : v ≤ w := by
      by_cases hle : v ≤ w
      · exact hle
      · rw [skips_of_le h (Millis.le_of_not_le hle)] at hskips
        cases hskips
    exact skips_of_le (p.skips_advance w) hle

namespace Trails

variable {t lateness : Millis}

theorem advance (h : p.Trails) (w : Millis) : (p.advance w).1.Trails := by
  intro lateness latest hpolicy hlatest
  rw [policy_advance] at hpolicy
  rw [latestSeen_advance] at hlatest
  exact skips_advance_of_skips (h lateness latest hpolicy hlatest) w

/-- Where samples move the watermark of a topic that trails them, each of them does so as if there
had been no other. -/
theorem follow_eq (h : p.Trails) (hpolicy : p.policy = .eventTime lateness) :
    p.follow t =
      ({ (p.advance (t.satSub lateness)).1 with latestSeen := some (p.latestWith t) },
        (p.advance (t.satSub lateness)).2) := by
  have hadvance : p.advance ((p.latestWith t).satSub lateness) = p.advance (t.satSub lateness) := by
    unfold latestWith
    cases hlatest : p.latestSeen with
    | none => rfl
    | some seen =>
      have hseen := h lateness seen hpolicy hlatest
      rw [Option.map_some, Option.getD_some, Millis.later]
      split
      · rfl
      · rename_i hlater
        have hle := Millis.satSub_mono (Millis.le_of_not_le hlater) lateness
        rw [advance_of_skips hseen, advance_of_skips (skips_of_le hseen hle)]
  rw [follow_of_eventTime hpolicy, advance_latestSeen, hadvance]

/-- A topic trails its samples when one of them has moved its watermark. -/
theorem follow (h : p.Trails) (t : Millis) : (p.follow t).1.Trails := by
  cases hpolicy : p.policy with
  | manual =>
    unfold Pipeline.follow
    rw [hpolicy]
    exact h
  | eventTime lateness =>
    intro lateness' latest hpolicy' hlatest
    rw [follow_of_eventTime hpolicy] at hpolicy' hlatest ⊢
    rw [policy_advance, hpolicy] at hpolicy'
    rw [latestSeen_advance] at hlatest
    obtain rfl := WatermarkPolicy.eventTime.inj hpolicy'
    obtain rfl := Option.some.inj hlatest
    exact skips_advance _ _

theorem ingest (h : p.Trails) (s : Sample) : (p.ingest s).1.Trails := by
  have hoffered : (p.offered s (p.countsWith s)).Trails := h
  exact p.ingest_cases (motive := fun q => q.1.Trails) s (fun _ => h) (fun _ _ => h) fun _ _ =>
    hoffered.follow s.time

end Trails

namespace Mirrors

/-- Mirrored topics that trail their samples follow a sample alike. -/
theorem follow (h : q.Mirrors p) (hq : q.Trails) (hp : p.Trails) (t : Millis) :
    (q.follow t).1.Mirrors (p.follow t).1 ∧ (q.follow t).2 = (p.follow t).2 := by
  cases hpolicy : p.policy with
  | manual =>
    have hpolicy' := h.policy_eq.trans hpolicy
    unfold Pipeline.follow
    rw [hpolicy, hpolicy']
    exact ⟨h, rfl⟩
  | eventTime lateness =>
    rw [hp.follow_eq hpolicy, hq.follow_eq (h.policy_eq.trans hpolicy)]
    obtain ⟨hmirrors, heffect⟩ := h.advance (t.satSub lateness)
    exact ⟨⟨hmirrors.identity_eq, hmirrors.standing_eq, hmirrors.watermark_eq,
      hmirrors.aggregators⟩, heffect⟩

/-- The rules of mirrored topics say the same about a sample. -/
theorem offer_eq (h : q.Mirrors p) (s : Sample) :
    (q.offer s).2.map (fun outcome => (outcome.1.rule, outcome.2)) =
      (p.offer s).2.map fun outcome => (outcome.1.rule, outcome.2) := by
  simp only [offer, List.map_map]
  refine map_eq_of_mirrors h.aggregators fun hab => ?_
  obtain ⟨hmirrors, hadmission⟩ := hab.add s.time s.value
  exact Prod.ext hmirrors.rule_eq hadmission

theorem dispositionOf_eq (h : q.Mirrors p) (s : Sample) :
    dispositionOf (q.offer s).2 = dispositionOf (p.offer s).2 := by
  have hany : ∀ f : Admission → Bool,
      (q.offer s).2.any (fun outcome => f outcome.2) =
        (p.offer s).2.any fun outcome => f outcome.2 := by
    intro f
    have hreports := congrArg (fun l => l.any fun report => f report.2) (h.offer_eq s)
    simp only [List.any_map] at hreports
    exact hreports
  unfold dispositionOf
  rw [hany fun a => decide (0 < a.accepted), hany Admission.isLate]

/-- The windows of mirrored topics report the same faults about a sample. -/
theorem remarks_eq (h : q.Mirrors p) (s : Sample) : q.remarks s = p.remarks s := by
  have hoverflow : ∀ r : Pipeline, r.overflowFaults (r.offer s).2 =
      (((r.offer s).2.map fun outcome => (outcome.1.rule, outcome.2)).filter
        fun report => 0 < report.2.overflowed).map fun report => r.overflowFault report.1 := by
    intro r
    rw [overflowFaults, List.filter_map, List.map_map]
    rfl
  have hfault : q.overflowFault = p.overflowFault := by
    funext rule
    rw [overflowFault, overflowFault, h.name_eq]
  have hlate : q.lateFault s.time = p.lateFault s.time := by
    rw [lateFault, lateFault, h.name_eq, h.watermark_eq]
  rw [remarks, remarks, hoverflow, hoverflow, h.offer_eq, hfault, h.dispositionOf_eq, hlate]

/-- Mirrored topics that trail their samples answer a sample alike and mirror each other
afterwards. -/
theorem ingest (h : q.Mirrors p) (hq : q.Trails) (hp : p.Trails) (s : Sample) :
    (q.ingest s).1.Mirrors (p.ingest s).1 ∧ (q.ingest s).2 = (p.ingest s).2 := by
  cases hdeleted : p.deleted with
  | true =>
    rw [ingest_of_deleted hdeleted, ingest_of_deleted (h.deleted_eq.trans hdeleted)]
    exact ⟨h, rfl⟩
  | false =>
    have hdeleted' := h.deleted_eq.trans hdeleted
    cases hin : p.spec.inRange s.time with
    | false =>
      have hin' : q.spec.inRange s.time = false := by rw [h.spec_eq, hin]
      rw [ingest_of_outOfRange hdeleted hin, ingest_of_outOfRange hdeleted' hin']
      exact ⟨⟨h.identity_eq, h.standing_eq, h.watermark_eq, h.aggregators⟩, rfl⟩
    | true =>
      have hin' : q.spec.inRange s.time = true := by rw [h.spec_eq, hin]
      obtain ⟨counts, hingest⟩ := ingest_of_inRange hdeleted hin
      obtain ⟨counts', hingest'⟩ := ingest_of_inRange hdeleted' hin'
      have hoffered : (q.offered s counts').Mirrors (p.offered s counts) := by
        refine ⟨h.identity_eq, h.standing_eq, h.watermark_eq, ?_⟩
        rw [offered, offered, List.forall₂_map_left_iff, List.forall₂_map_right_iff]
        exact h.aggregators.imp fun a b hab => (hab.add s.time s.value).1
      obtain ⟨hmirrors, heffect⟩ := hoffered.follow hq hp s.time
      rw [hingest, hingest', h.dispositionOf_eq, h.remarks_eq, heffect]
      exact ⟨hmirrors, rfl⟩

end Mirrors

end TelemetryBands.Pipeline
