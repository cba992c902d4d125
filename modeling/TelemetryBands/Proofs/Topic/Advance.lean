import TelemetryBands.Proofs.Topic.Ruling
import TelemetryBands.Proofs.Window.Contents

/-!
# Topics under calls

A watermark that a topic has not reached closes windows, and the closes are judged in one go. This
file says so in one equation, and proves that on every history of calls a topic keeps one aggregator
for each rule, in the order of the ladder, on the rule's own grid and with regular windows.
-/

namespace TelemetryBands.Pipeline

/-- The closes that a watermark is due to evaluate, in their order. -/
def due (p : Pipeline) (w : Millis) : List WindowClose :=
  (p.closeThrough w).2

/-- A topic after its windows were closed, with nothing evaluated yet. -/
def closed (p : Pipeline) (w : Millis) : Pipeline :=
  { p with
    aggregators := p.aggregators.map fun a => (a.closeThrough w).1
    watermark := some w
    counts := p.counts.close (p.due w).length }

/-- What becomes of the closes that a watermark is due to evaluate. -/
def verdict (p : Pipeline) (w : Millis) : Standing × List (WindowClose × Ruling) :=
  p.standing.judgeAll p.spec.ladder (p.due w)

/-- Whether a watermark does nothing. -/
def skips (p : Pipeline) (w : Millis) : Bool :=
  p.deleted || p.hasReached w

variable {p : Pipeline} {w : Millis} {spec : TopicSpec}

theorem hasReached_iff {t : Millis} :
    p.hasReached t = true ↔ ∃ v, p.watermark = some v ∧ t.val ≤ v.val := by
  simp [hasReached, Option.any_eq_true, Millis.le_def]

theorem advance_of_skips (h : p.skips w = true) : p.advance w = (p, .none) :=
  if_pos h

/-- A new watermark closes windows and evaluates them in one go. -/
theorem advance_of_new (h : p.skips w = false) :
    p.advance w =
      ((p.closed w).conclude w (p.verdict w).1 (p.verdict w).2,
        p.effectOf w (p.verdict w).2) := by
  have hskips : ¬ (p.deleted || p.hasReached w) = true := Bool.eq_false_iff.mp h
  have hmap : (p.aggregators.map fun a => a.closeThrough w).map Prod.fst =
      p.aggregators.map fun a => (a.closeThrough w).1 := by
    rw [List.map_map]
    rfl
  unfold advance
  rw [if_neg hskips]
  simp only [closeThrough, evaluateAll_eq, hmap]
  rfl

/-- A watermark does nothing, or it closes windows and evaluates them. -/
theorem advance_cases {motive : Pipeline × Effect → Prop} (p : Pipeline) (w : Millis)
    (skipped : p.skips w = true → motive (p, .none))
    (evaluated : p.skips w = false →
      motive ((p.closed w).conclude w (p.verdict w).1 (p.verdict w).2,
        p.effectOf w (p.verdict w).2)) :
    motive (p.advance w) := by
  cases hskips : p.skips w with
  | true =>
    rw [advance_of_skips hskips]
    exact skipped hskips
  | false =>
    rw [advance_of_new hskips]
    exact evaluated hskips

/-- The events of a watermark are those that the verdict on its closes publishes. -/
theorem exists_of_mem_advance {e : Event} (he : e ∈ (p.advance w).2.events) :
    p.skips w = false ∧ ∃ c ∈ p.due w, ∃ state kind aggregate,
      (c, Ruling.published state kind aggregate) ∈ (p.verdict w).2 ∧
        e = p.eventOf state kind aggregate c w := by
  cases hskips : p.skips w with
  | true =>
    rw [advance_of_skips hskips] at he
    cases he
  | false =>
    rw [advance_of_new hskips] at he
    obtain ⟨⟨c, ruling⟩, hmem, hevent⟩ := List.mem_filterMap.mp he
    have hdue : c ∈ p.due w := by
      rw [← p.standing.map_fst_judgeAll p.spec.ladder (p.due w)]
      exact List.mem_map_of_mem hmem
    cases ruling with
    | published state kind aggregate =>
      exact ⟨rfl, c, hdue, state, kind, aggregate, hmem, (Option.some.inj hevent).symm⟩
    | _ => cases hevent

/-- After a call to advance, the watermark is reached. -/
theorem skips_advance (p : Pipeline) (w : Millis) : (p.advance w).1.skips w = true := by
  cases h : p.skips w with
  | true =>
    rw [advance_of_skips h]
    exact h
  | false =>
    have hreached : (p.advance w).1.hasReached w = true := by
      rw [advance_of_new h]
      exact hasReached_iff.mpr ⟨w, rfl, Int.le_refl _⟩
    rw [skips, hreached, Bool.or_true]

/-- What is skipped at a watermark is skipped at the watermarks before it. -/
theorem skips_of_le {v : Millis} (h : p.skips w = true) (hle : v ≤ w) : p.skips v = true := by
  unfold skips at *
  rcases Bool.or_eq_true_iff.mp h with hdeleted | hreached
  · rw [hdeleted, Bool.true_or]
  · obtain ⟨u, hu, hwu⟩ := hasReached_iff.mp hreached
    have hvu : v.val ≤ u.val := by
      rw [Millis.le_def] at hle
      omega
    rw [hasReached_iff.mpr ⟨u, hu, hvu⟩, Bool.or_true]

@[simp] theorem policy_advance (p : Pipeline) (w : Millis) :
    (p.advance w).1.policy = p.policy :=
  p.advance_cases (motive := fun q => q.1.policy = p.policy) w (fun _ => rfl) fun _ => rfl

@[simp] theorem latestSeen_advance (p : Pipeline) (w : Millis) :
    (p.advance w).1.latestSeen = p.latestSeen :=
  p.advance_cases (motive := fun q => q.1.latestSeen = p.latestSeen) w (fun _ => rfl) fun _ => rfl

theorem watermark_advance (p : Pipeline) (w : Millis) :
    (p.advance w).1.watermark = if p.skips w then p.watermark else some w := by
  cases h : p.skips w with
  | true =>
    rw [advance_of_skips h]
    rfl
  | false =>
    rw [advance_of_new h]
    rfl

/-- A watermark that is not behind the one of the topic is its watermark afterwards. -/
theorem watermark_advance_of_le (halive : p.deleted = false)
    (hle : ∀ u, p.watermark = some u → u ≤ w) : (p.advance w).1.watermark = some w := by
  rw [watermark_advance]
  split
  · rename_i hskips
    rw [skips, halive, Bool.false_or] at hskips
    obtain ⟨u, hu, hwu⟩ := hasReached_iff.mp hskips
    rw [hu, Millis.le_antisymm (hle u hu) hwu]
  · rfl

/-- The latest time of a sample after one more. -/
def latestWith (p : Pipeline) (t : Millis) : Millis :=
  (p.latestSeen.map fun seen => seen.later t).getD t

/-- Where samples move the watermark, it follows the latest of them. -/
theorem follow_of_eventTime {lateness t : Millis} (h : p.policy = .eventTime lateness) :
    p.follow t = { p with latestSeen := some (p.latestWith t) }.advance
      ((p.latestWith t).satSub lateness) := by
  unfold follow
  rw [h]
  rfl

/-- A sample leaves the watermark to others, or its time is noted and a watermark follows. -/
theorem follow_cases {motive : Pipeline × Effect → Prop} (p : Pipeline) (t : Millis)
    (stays : motive (p, .none))
    (moves : ∀ w, motive ({ p with latestSeen := some (p.latestWith t) }.advance w)) :
    motive (p.follow t) := by
  cases hpolicy : p.policy with
  | manual =>
    simp only [follow, hpolicy]
    exact stays
  | eventTime lateness =>
    rw [follow_of_eventTime hpolicy]
    exact moves _

/-- Watermarks offer no sample to any rule. -/
theorem nextArrival_advance {n : Nat} (h : ∀ a ∈ p.aggregators, a.nextArrival = n) (w : Millis) :
    ∀ a ∈ (p.advance w).1.aggregators, a.nextArrival = n := by
  refine p.advance_cases (motive := fun q => ∀ a ∈ q.1.aggregators, a.nextArrival = n) w
    (fun _ => h) fun _ a ha => ?_
  obtain ⟨b, hb, rfl⟩ := List.mem_map.mp ha
  rw [b.closeThrough_nextArrival]
  exact h b hb

/-- The faults that the windows report about a sample. -/
def remarks (p : Pipeline) (s : Sample) : List Fault :=
  p.overflowFaults (p.offer s).2 ++
    if dispositionOf (p.offer s).2 = .late then [p.lateFault s.time] else []

/-- A topic after a sample was offered to its windows, with new counts. -/
def offered (p : Pipeline) (s : Sample) (counts : TopicCounts) : Pipeline :=
  { p with
    aggregators := p.aggregators.map fun a => (a.add s.time s.value).1
    counts := counts }

/-- The counts of a topic after a sample was offered to its windows. -/
def countsWith (p : Pipeline) (s : Sample) : TopicCounts :=
  let counts := p.counts.add (dispositionOf (p.offer s).2)
  { counts with faults := counts.faults + (p.overflowFaults (p.offer s).2).length }

/-- A sample whose time counts is offered to every rule and then moves the watermark. -/
theorem ingest_eq {s : Sample} (halive : p.deleted = false) (hin : p.spec.inRange s.time = true) :
    p.ingest s =
      (((p.offered s (p.countsWith s)).follow s.time).1, dispositionOf (p.offer s).2,
        Effect.andThen ⟨[], p.remarks s⟩ ((p.offered s (p.countsWith s)).follow s.time).2) := by
  have hmap : (p.offer s).1.aggregators = p.aggregators.map fun a => (a.add s.time s.value).1 := by
    simp [offer]
  have hdeleted : ¬ p.deleted = true := by rw [halive]; exact Bool.false_ne_true
  have hout : ¬ (!p.spec.inRange s.time) = true := by rw [hin]; exact Bool.false_ne_true
  unfold ingest offered countsWith
  rw [if_neg hdeleted, if_neg hout, ← hmap]
  rfl

/-- What counts a sample leaves has no part in the rest. -/
theorem ingest_of_inRange {s : Sample} (halive : p.deleted = false)
    (hin : p.spec.inRange s.time = true) :
    ∃ counts, p.ingest s =
      (((p.offered s counts).follow s.time).1, dispositionOf (p.offer s).2,
        Effect.andThen ⟨[], p.remarks s⟩ ((p.offered s counts).follow s.time).2) :=
  ⟨p.countsWith s, ingest_eq halive hin⟩

/-- A sample whose time does not count is only counted. -/
theorem ingest_of_outOfRange {s : Sample} (halive : p.deleted = false)
    (hin : p.spec.inRange s.time = false) :
    p.ingest s = ({ p with counts := p.counts.add .outOfRange }, .outOfRange, .none) := by
  simp [ingest, halive, hin]

/-- A topic that was shut down takes no sample. -/
theorem ingest_of_deleted {s : Sample} (h : p.deleted = true) :
    p.ingest s = (p, .deleted, .none) := by
  simp [ingest, h]

/-- A sample comes to a topic that was shut down, at a time that does not count, or to its rules. -/
theorem ingest_cases {motive : Pipeline × Disposition × Effect → Prop} (p : Pipeline) (s : Sample)
    (deleted : p.deleted = true → motive (p, .deleted, .none))
    (outOfRange : p.deleted = false → p.spec.inRange s.time = false →
      motive ({ p with counts := p.counts.add .outOfRange }, .outOfRange, .none))
    (inRange : p.deleted = false → p.spec.inRange s.time = true →
      motive (((p.offered s (p.countsWith s)).follow s.time).1, dispositionOf (p.offer s).2,
        Effect.andThen ⟨[], p.remarks s⟩ ((p.offered s (p.countsWith s)).follow s.time).2)) :
    motive (p.ingest s) := by
  cases hdeleted : p.deleted with
  | true =>
    rw [ingest_of_deleted hdeleted]
    exact deleted hdeleted
  | false =>
    cases hin : p.spec.inRange s.time with
    | false =>
      rw [ingest_of_outOfRange hdeleted hin]
      exact outOfRange hdeleted hin
    | true =>
      rw [ingest_eq hdeleted hin]
      exact inRange hdeleted hin

/-- What a list of calls brings about. -/
def effects (replies : List (Reply × Effect)) : Effect :=
  ⟨replies.flatMap fun reply => reply.2.events, replies.flatMap fun reply => reply.2.faults⟩

theorem effects_append (before after : List (Reply × Effect)) :
    effects (before ++ after) = (effects before).andThen (effects after) := by
  simp [effects, Effect.andThen]

theorem run_cons (p : Pipeline) (call : Call) (calls : List Call) :
    p.run (call :: calls) =
      (((p.apply call).1.run calls).1, (p.apply call).2 :: ((p.apply call).1.run calls).2) := rfl

/-- The events of a history are those of its first call and of the others. -/
theorem events_run_cons (p : Pipeline) (call : Call) (calls : List Call) :
    (effects (p.run (call :: calls)).2).events =
      (p.apply call).2.2.events ++ (effects ((p.apply call).1.run calls).2).events := rfl

/-- A history in two parts. -/
theorem run_append (p : Pipeline) (before after : List Call) :
    p.run (before ++ after) =
      (((p.run before).1.run after).1, (p.run before).2 ++ ((p.run before).1.run after).2) := by
  induction before generalizing p with
  | nil => rfl
  | cons call before ih =>
    simp only [List.cons_append, run, ih]

/-- A topic has one aggregator for each rule, in the order of the ladder, with regular windows on
the grid of the rule. -/
structure Regular (p : Pipeline) (spec : TopicSpec) : Prop where
  spec_eq : p.spec = spec
  length_eq : p.aggregators.length = spec.ladder.rules.length
  place : ∀ {i : Nat} {a : Aggregator}, p.aggregators[i]? = some a →
    spec.ladder.rules[i]? = some a.rule ∧ a.ruleIndex = i ∧
      a.grid = ⟨spec.start.getD 0, a.rule.windowSize, a.rule.windowOffset⟩
  windows : ∀ {a : Aggregator}, a ∈ p.aggregators → a.Regular

/-- A new topic is regular. -/
theorem regular_new (name : String) (endpoint : Endpoint) (spec : TopicSpec)
    (settings : Settings) : (new name endpoint spec settings).Regular spec where
  spec_eq := rfl
  length_eq := by simp [new]
  place := by
    intro i a hget
    simp only [new, List.getElem?_mapIdx, Option.map_eq_some_iff] at hget
    obtain ⟨rule, hrule, rfl⟩ := hget
    exact ⟨hrule, rfl, rfl⟩
  windows := by
    intro a hmem
    simp only [new, List.mem_mapIdx] at hmem
    obtain ⟨i, hi, rfl⟩ := hmem
    exact Aggregator.regular_new (Ladder.flaw?_of_mem (List.getElem_mem hi))

namespace Regular

/-- A topic stays regular when its aggregators change by a step that keeps the place and the
regularity of each. -/
theorem of_map {q : Pipeline} (h : p.Regular spec) (f : Aggregator → Aggregator)
    (hspec : q.spec = p.spec) (hmap : q.aggregators = p.aggregators.map f)
    (hplace : ∀ a, (f a).rule = a.rule ∧ (f a).ruleIndex = a.ruleIndex ∧ (f a).grid = a.grid)
    (hwindows : ∀ a : Aggregator, a.Regular → (f a).Regular) : q.Regular spec where
  spec_eq := hspec.trans h.spec_eq
  length_eq := by rw [hmap, List.length_map, h.length_eq]
  place := by
    intro i a hget
    rw [hmap, List.getElem?_map, Option.map_eq_some_iff] at hget
    obtain ⟨b, hget, rfl⟩ := hget
    obtain ⟨hrule, hindex, hgrid⟩ := hplace b
    rw [hrule, hindex, hgrid]
    exact h.place hget
  windows := by
    intro a hmem
    rw [hmap, List.mem_map] at hmem
    obtain ⟨b, hmem, rfl⟩ := hmem
    exact hwindows b (h.windows hmem)

/-- What a topic keeps beside its windows has no part in its regularity. -/
theorem congr {q : Pipeline} (h : p.Regular spec) (hspec : q.spec = p.spec)
    (haggregators : q.aggregators = p.aggregators) : q.Regular spec :=
  h.of_map id hspec (by rw [haggregators, List.map_id]) (fun _ => ⟨rfl, rfl, rfl⟩) (fun _ ha => ha)

/-- Closing keeps a topic regular. -/
theorem closeThrough {q : Pipeline} (h : p.Regular spec) (w : Millis) (hspec : q.spec = p.spec)
    (hmap : q.aggregators = p.aggregators.map fun a => (a.closeThrough w).1) : q.Regular spec := by
  refine h.of_map _ hspec hmap (fun a => ?_) (fun a ha => ha.closeThrough w)
  exact ⟨a.closeThrough_rule w, a.closeThrough_ruleIndex w, a.closeThrough_grid w⟩

theorem advance (h : p.Regular spec) (w : Millis) : (p.advance w).1.Regular spec :=
  p.advance_cases (motive := fun q => q.1.Regular spec) w (fun _ => h) fun _ =>
    h.closeThrough w rfl rfl

theorem follow (h : p.Regular spec) (t : Millis) : (p.follow t).1.Regular spec := by
  unfold Pipeline.follow
  cases p.policy with
  | manual => exact h
  | eventTime lateness =>
    apply Regular.advance
    exact h.congr rfl rfl

/-- Offering a sample keeps a topic regular. -/
theorem offered (h : p.Regular spec) (s : Sample) (counts : TopicCounts) :
    (p.offered s counts).Regular spec := by
  refine h.of_map (fun a => (a.add s.time s.value).1) rfl rfl (fun a => ?_)
    (fun a ha => ha.add s.time s.value)
  exact ⟨a.add_rule _ _, a.add_ruleIndex _ _, a.add_grid _ _⟩

theorem ingest (h : p.Regular spec) (s : Sample) : (p.ingest s).1.Regular spec :=
  p.ingest_cases (motive := fun q => q.1.Regular spec) s (fun _ => h)
    (fun _ _ => h.congr rfl rfl) fun _ _ => (h.offered s _).follow s.time

theorem restore (h : p.Regular spec) (s : Snapshot) : (p.restore s).Regular spec := by
  unfold Pipeline.restore
  cases s.watermark with
  | none => exact h.congr rfl rfl
  | some w =>
    refine h.closeThrough w rfl ?_
    simp [restoreWatermark, Pipeline.closeThrough]

theorem shutDown (h : p.Regular spec) : p.shutDown.Regular spec :=
  h.of_map Aggregator.clear rfl rfl (fun _ => ⟨rfl, rfl, rfl⟩) (fun _ ha => ha.clear)

/-- Every call keeps a topic regular. -/
theorem apply (h : p.Regular spec) (call : Call) : (p.apply call).1.Regular spec := by
  cases call with
  | ingest s => exact h.ingest s
  | advance w => exact h.advance w
  | subscribe id sink => exact h.congr rfl rfl
  | unsubscribe id => exact h.congr rfl rfl
  | load text =>
    simp only [Pipeline.apply, load]
    cases Snapshot.load text with
    | error failure => exact h
    | ok s => exact h.restore s
  | shutDown => exact h.shutDown

/-- Every history of calls keeps a topic regular. -/
theorem run (h : p.Regular spec) (calls : List Call) : (p.run calls).1.Regular spec := by
  induction calls generalizing p with
  | nil => exact h
  | cons call calls ih => exact ih (h.apply call)

end Regular

end TelemetryBands.Pipeline
