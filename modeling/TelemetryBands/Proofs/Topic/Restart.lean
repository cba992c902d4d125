import TelemetryBands.Proofs.Topic.Mirroring
import TelemetryBands.Proofs.Topic.SavedText

/-!
# Restarts

A snapshot leaves out the open windows, the arrival numbers, the latest sample and how far each
aggregator is closed. A new topic that takes it over nevertheless mirrors the old one, once the open
windows of that are dropped: every aggregator is closed just as far as the watermark of its topic.
So a restart is seen in nothing but the windows that it loses.
-/

namespace TelemetryBands

namespace Aggregator

/-- An aggregator as it was in the beginning. -/
def renew (a : Aggregator) : Aggregator :=
  { a with openWindows := .empty, closedThrough := none, nextArrival := 0, counts := ⟨0, 0, 0, 0⟩ }

@[simp] theorem renew_add (a : Aggregator) (t : Millis) (value : SampleValue) :
    (a.add t value).1.renew = a.renew := by
  rw [add_frame]
  rfl

@[simp] theorem renew_closeThrough (a : Aggregator) (w : Millis) :
    (a.closeThrough w).1.renew = a.renew := by
  unfold closeThrough
  split <;> rfl

/-- A new aggregator mirrors one that has never been closed and lost its windows. -/
theorem mirrors_clear_of_none {a : Aggregator} (h : a.closedThrough = none) :
    a.renew.Mirrors a.clear := by
  refine ⟨a.nextArrival, a.counts, ?_⟩
  simp [renew, postpone, clear, h]

/-- A new aggregator, closed through a watermark, mirrors one that is closed through it and lost its
windows. -/
theorem mirrors_clear_of_some {a : Aggregator} {w : Millis} (h : a.closedThrough = some w) :
    (a.renew.closeThrough w).1.Mirrors a.clear := by
  refine ⟨a.nextArrival, a.counts, ?_⟩
  have hnew : a.renew.hasReached w = false := rfl
  rw [closeThrough_of_new hnew]
  simp [renew, postpone, clear, h]

end Aggregator

namespace Pipeline

/-- What reaches a topic while it is at work: samples and watermarks. -/
inductive Traffic where
  | sample (s : Sample)
  | watermark (w : Millis)

/-- The call that traffic makes. -/
def Traffic.call : Traffic → Call
  | .sample s => .ingest s
  | .watermark w => .advance w

/-- A topic that lost its open windows. -/
def dropWindows (p : Pipeline) : Pipeline :=
  { p with aggregators := p.aggregators.map Aggregator.clear }

/-- What traffic leaves alone in a topic, and how far it closes the aggregators. -/
structure Reached (fresh p : Pipeline) : Prop where
  identity_eq : p.identity = fresh.identity
  renewed : p.aggregators.map Aggregator.renew = fresh.aggregators
  level : ∀ a ∈ p.aggregators, a.closedThrough = p.watermark
  trails : p.Trails

theorem reached_new (name : String) (endpoint : Endpoint) (spec : TopicSpec)
    (settings : Settings) :
    Reached (new name endpoint spec settings) (new name endpoint spec settings) where
  identity_eq := rfl
  renewed := by
    have hrenew : ∀ a ∈ (new name endpoint spec settings).aggregators, a.renew = id a := by
      intro a ha
      simp only [new, List.mem_mapIdx] at ha
      obtain ⟨i, hi, rfl⟩ := ha
      rfl
    rw [List.map_congr_left hrenew, List.map_id]
  level := by
    intro a ha
    simp only [new, List.mem_mapIdx] at ha
    obtain ⟨i, hi, rfl⟩ := ha
    rfl
  trails := by
    intro lateness latest _ hlatest
    cases hlatest

namespace Reached

variable {fresh p : Pipeline}

theorem advance (h : Reached fresh p) (w : Millis) : Reached fresh (p.advance w).1 := by
  have htrails := h.trails.advance w
  cases hskips : p.skips w with
  | true =>
    rw [advance_of_skips hskips]
    exact h
  | false =>
    rw [advance_of_new hskips] at htrails ⊢
    refine ⟨h.identity_eq, ?_, ?_, htrails⟩
    · rw [← h.renewed]
      simp [conclude, closed, Function.comp_def]
    · intro a ha
      obtain ⟨b, hb, rfl⟩ := List.mem_map.mp ha
      have hnew : b.hasReached w = false := by
        rw [Aggregator.hasReached, h.level b hb]
        exact (Bool.or_eq_false_iff.mp hskips).2
      exact Aggregator.closeThrough_closedThrough hnew

theorem follow (h : Reached fresh p) (t : Millis) : Reached fresh (p.follow t).1 := by
  have htrails := h.trails.follow t
  cases hpolicy : p.policy with
  | manual =>
    unfold Pipeline.follow
    rw [hpolicy]
    exact h
  | eventTime lateness =>
    rw [h.trails.follow_eq hpolicy] at htrails ⊢
    have hnext := h.advance (t.satSub lateness)
    exact ⟨hnext.identity_eq, hnext.renewed, hnext.level, htrails⟩

theorem ingest (h : Reached fresh p) (s : Sample) : Reached fresh (p.ingest s).1 := by
  have hskipped : Reached fresh { p with counts := p.counts.add .outOfRange } :=
    ⟨h.identity_eq, h.renewed, h.level, h.trails⟩
  have hoffered : Reached fresh (p.offered s (p.countsWith s)) := by
    refine ⟨h.identity_eq, ?_, ?_, h.trails⟩
    · rw [← h.renewed]
      simp [offered, Function.comp_def]
    · intro a ha
      obtain ⟨b, hb, rfl⟩ := List.mem_map.mp ha
      rw [b.add_closedThrough]
      exact h.level b hb
  exact p.ingest_cases (motive := fun q => Reached fresh q.1) s (fun _ => h) (fun _ _ => hskipped)
    fun _ _ => hoffered.follow s.time

theorem apply (h : Reached fresh p) (traffic : Traffic) :
    Reached fresh (p.apply traffic.call).1 := by
  cases traffic with
  | sample s => exact h.ingest s
  | watermark w => exact h.advance w

theorem run (h : Reached fresh p) (traffic : List Traffic) :
    Reached fresh (p.run (traffic.map Traffic.call)).1 := by
  induction traffic generalizing p with
  | nil => exact h
  | cons head traffic ih => exact ih (h.apply head)

/-- A new topic that takes over the snapshot of another one mirrors it, once that lost its open
windows. -/
theorem mirrors_restore (h : Reached fresh p) (hnew : fresh.watermark = none) :
    (fresh.restore p.snapshot).Mirrors p.dropWindows := by
  unfold restore snapshot
  cases hwatermark : p.watermark with
  | none =>
    refine ⟨h.identity_eq.symm, rfl, hnew.trans hwatermark.symm, ?_⟩
    show List.Forall₂ _ fresh.aggregators (p.aggregators.map Aggregator.clear)
    rw [← h.renewed, List.forall₂_map_left_iff, List.forall₂_map_right_iff, List.forall₂_same]
    intro a ha
    exact Aggregator.mirrors_clear_of_none ((h.level a ha).trans hwatermark)
  | some w =>
    refine ⟨h.identity_eq.symm, rfl, hwatermark.symm, ?_⟩
    show List.Forall₂ _ ((fresh.aggregators.map fun a => a.closeThrough w).map Prod.fst)
      (p.aggregators.map Aggregator.clear)
    rw [← h.renewed, List.map_map, List.map_map, List.forall₂_map_left_iff,
      List.forall₂_map_right_iff, List.forall₂_same]
    intro a ha
    exact Aggregator.mirrors_clear_of_some ((h.level a ha).trans hwatermark)

end Reached

/-- Taking over a snapshot does not remember a sample. -/
theorem latestSeen_restore (p : Pipeline) (s : Snapshot) :
    (p.restore s).latestSeen = p.latestSeen := by
  unfold restore
  cases s.watermark with
  | none => rfl
  | some w => rfl

/-- The text that keeps a topic is taken over. -/
theorem load_save (p fresh : Pipeline) : fresh.load p.save = .ok (fresh.restore p.snapshot) := by
  rw [load, save, Snapshot.load_save]
  rfl

theorem Trails.apply {p : Pipeline} (h : p.Trails) (traffic : Traffic) :
    (p.apply traffic.call).1.Trails := by
  cases traffic with
  | sample s => exact h.ingest s
  | watermark w => exact h.advance w

namespace Mirrors

variable {q p : Pipeline}

theorem apply (h : q.Mirrors p) (hq : q.Trails) (hp : p.Trails) (traffic : Traffic) :
    (q.apply traffic.call).1.Mirrors (p.apply traffic.call).1 ∧
      (q.apply traffic.call).2 = (p.apply traffic.call).2 := by
  cases traffic with
  | sample s =>
    obtain ⟨hmirrors, hanswer⟩ := h.ingest hq hp s
    exact ⟨hmirrors, congrArg (fun answer => (Reply.disposition answer.1, answer.2)) hanswer⟩
  | watermark w =>
    obtain ⟨hmirrors, heffect⟩ := h.advance w
    exact ⟨hmirrors, congrArg (fun effect => (Reply.done, effect)) heffect⟩

/-- Mirrored topics that trail their samples answer all traffic alike. -/
theorem run (h : q.Mirrors p) (hq : q.Trails) (hp : p.Trails) (traffic : List Traffic) :
    (q.run (traffic.map Traffic.call)).1.Mirrors (p.run (traffic.map Traffic.call)).1 ∧
      (q.run (traffic.map Traffic.call)).2 = (p.run (traffic.map Traffic.call)).2 := by
  induction traffic generalizing q p with
  | nil => exact ⟨h, rfl⟩
  | cons head traffic ih =>
    obtain ⟨hmirrors, hanswer⟩ := h.apply hq hp head
    obtain ⟨hfinal, hanswers⟩ := ih hmirrors (hq.apply head) (hp.apply head)
    refine ⟨hfinal, ?_⟩
    rw [List.map_cons, Pipeline.run, Pipeline.run]
    exact List.cons_eq_cons.mpr ⟨hanswer, hanswers⟩

end Mirrors

/-- A restart is seen in nothing but the windows that it loses. Whatever samples and watermarks a
topic has taken, its saved text is taken over by a new topic of the same kind, and from then on this
one answers the same samples and watermarks like the old one without its open windows: with the same
dispositions, events and faults, and in the same band, with the same records of publications and the
same watermark. -/
theorem restart_is_transparent (name : String) (endpoint : Endpoint) (spec : TopicSpec)
    (settings : Settings) (before after : List Traffic) :
    let fresh := new name endpoint spec settings
    let p := (fresh.run (before.map Traffic.call)).1
    ∃ q, fresh.load p.save = .ok q ∧
      let restarted := q.run (after.map Traffic.call)
      let continued := p.dropWindows.run (after.map Traffic.call)
      restarted.2 = continued.2 ∧
        restarted.1.band = continued.1.band ∧
        restarted.1.suppressor = continued.1.suppressor ∧
        restarted.1.watermark = continued.1.watermark := by
  intro fresh p
  have hreached : Reached fresh p := (reached_new name endpoint spec settings).run before
  have hrestored : (fresh.restore p.snapshot).Trails := by
    intro lateness latest _ hlatest
    rw [latestSeen_restore] at hlatest
    cases hlatest
  have hdropped : p.dropWindows.Trails := hreached.trails
  obtain ⟨hmirrors, hanswers⟩ := (hreached.mirrors_restore rfl).run hrestored hdropped after
  refine ⟨fresh.restore p.snapshot, load_save p fresh, hanswers, ?_, ?_, hmirrors.watermark_eq⟩
  · exact congrArg (fun s => s.detector.band) hmirrors.standing_eq
  · exact congrArg Standing.suppressor hmirrors.standing_eq

end Pipeline

end TelemetryBands
