import TelemetryBands.Proofs.Publication.Tallies
import TelemetryBands.Proofs.Topic.BandTracking
import TelemetryBands.Proofs.Topic.Due

/-!
# The books of a topic

A topic counts what becomes of its samples, of its windows and of the states that it comes to. Each
number is counted in another place: by the rules as they close windows, by the topic as it evaluates
them, by the suppressor as it decides, and by whoever takes in the events and the faults. This file
proves that on every history of a topic that is not shut down all these books agree.
-/

namespace TelemetryBands

namespace Ruling

/-- Whether a ruling says that a window came to no aggregate. -/
def isFailed : Ruling → Bool
  | .failed _ _ => true
  | _ => false

/-- Whether a ruling is about a window that came to an aggregate. -/
def isEvaluated : Ruling → Bool
  | .void | .failed _ _ => false
  | .unclassified | .withheld | .published _ _ _ => true

/-- A ruling about a window of a rule says what it came to or that it came to nothing. -/
theorem isFailed_eq_not {ruling : Ruling} (h : ruling ≠ .void) :
    ruling.isFailed = !ruling.isEvaluated := by
  cases ruling with
  | void => exact absurd rfl h
  | _ => rfl

/-- A state is published or withheld, not both, and only after an evaluation. -/
theorem decided_le (ruling : Ruling) :
    (if ruling.isPublished then 1 else 0) + (if ruling.isWithheld then 1 else 0) ≤
      if ruling.isEvaluated then 1 else 0 := by
  cases ruling <;> simp [isPublished, isWithheld, isEvaluated]

end Ruling

/-- Each sample is counted as one kind. -/
theorem TopicCounts.add_eq (counts : TopicCounts) (d : Disposition) :
    counts.add d =
      { counts with
        samplesAccepted := counts.samplesAccepted + if d = .accepted then 1 else 0
        lateSamples := counts.lateSamples + if d = .late then 1 else 0
        outOfRangeSamples := counts.outOfRangeSamples + if d = .outOfRange then 1 else 0
        rejectedSamples := counts.rejectedSamples + if d = .rejected then 1 else 0 } := by
  cases d <;> rfl

/-- Counting rulings is counting each kind of them. -/
theorem TopicCounts.ruleAll_eq (counts : TopicCounts) (rulings : List (WindowClose × Ruling)) :
    counts.ruleAll rulings =
      { counts with
        evaluations := counts.evaluations + rulings.countP (·.2.isEvaluated)
        published := counts.published + rulings.countP (·.2.isPublished)
        suppressed := counts.suppressed + rulings.countP (·.2.isWithheld)
        faults := counts.faults + rulings.countP (·.2.isFailed) } := by
  induction rulings generalizing counts with
  | nil => rfl
  | cons ruling rulings ih =>
    have hcons : counts.ruleAll (ruling :: rulings) = (counts.rule ruling.2).ruleAll rulings := rfl
    rw [hcons, ih]
    obtain ⟨c, ruling⟩ := ruling
    cases ruling <;>
      simp [rule, Ruling.isEvaluated, Ruling.isPublished, Ruling.isWithheld, Ruling.isFailed,
        Nat.add_assoc, Nat.add_comm 1]

/-- What is published or withheld came to an aggregate. -/
theorem countP_decided_le (rulings : List (WindowClose × Ruling)) :
    rulings.countP (·.2.isPublished) + rulings.countP (·.2.isWithheld) ≤
      rulings.countP (·.2.isEvaluated) := by
  induction rulings with
  | nil => exact Nat.le_refl 0
  | cons ruling rulings ih =>
    have hhead := ruling.2.decided_le
    rw [List.countP_cons, List.countP_cons, List.countP_cons]
    omega

/-- A window of a rule came to an aggregate or failed to. -/
theorem length_eq_countP {rulings : List (WindowClose × Ruling)}
    (h : ∀ ruling ∈ rulings, ruling.2 ≠ .void) :
    rulings.length = rulings.countP (·.2.isEvaluated) + rulings.countP (·.2.isFailed) := by
  rw [rulings.length_eq_countP_add_countP (·.2.isEvaluated)]
  congr 1
  refine List.countP_congr fun ruling hmem => ?_
  rw [Ruling.isFailed_eq_not (h ruling hmem)]
  simp

namespace Standing

theorem publish_ne_void (s : Standing) (l : Ladder) (state : UInt32) (candidate : Candidate)
    (kind : EventKind) (aggregate : Aggregate) (now : Millis) :
    (s.publish l state candidate kind aggregate now).2 ≠ .void := by
  unfold publish
  split <;> exact Ruling.noConfusion

/-- A close of a rule comes to something. -/
theorem judge_ne_void {s : Standing} {l : Ladder} {c : WindowClose}
    (h : c.ruleIndex < l.rules.length) : (s.judge l c).2 ≠ .void := by
  rw [judge, List.getElem?_eq_getElem h]
  cases c.aggregate with
  | error failure => exact Ruling.noConfusion
  | ok aggregate =>
    simp only [settle]
    split
    · exact Ruling.noConfusion
    · exact publish_ne_void _ _ _ _ _ _ _
    · exact publish_ne_void _ _ _ _ _ _ _

theorem judgeAll_ne_void {s : Standing} {l : Ladder} {closes : List WindowClose}
    (h : ∀ c ∈ closes, c.ruleIndex < l.rules.length) :
    ∀ ruling ∈ (s.judgeAll l closes).2, ruling.2 ≠ .void := by
  induction closes generalizing s with
  | nil => exact List.forall_mem_nil _
  | cons c closes ih =>
    obtain ⟨hc, hcloses⟩ := List.forall_mem_cons.mp h
    rw [judgeAll_cons]
    exact List.forall_mem_cons.mpr ⟨judge_ne_void hc, ih hcloses⟩

/-- A close that is published or withheld is counted in the records as that. -/
theorem tallied_judge {s : Standing} {published withheld : Nat}
    (h : s.suppressor.Tallied published withheld) (l : Ladder) (c : WindowClose) :
    (s.judge l c).1.suppressor.Tallied
      (published + if (s.judge l c).2.isPublished then 1 else 0)
      (withheld + if (s.judge l c).2.isWithheld then 1 else 0) := by
  rcases s.judge_cases l c with ⟨-, hsame, hpublished, hwithheld⟩ | ⟨kind, state, henters⟩
  · rw [hsame, hpublished, hwithheld]
    exact h
  · obtain ⟨aggregate, hruling⟩ := henters.ruling_eq
    have hconsider := h.consider state kind.candidate (l.repeatPolicy? state) c.span.stop
    have hconsidered : s.suppressor.consider state kind.candidate (l.repeatPolicy? state)
        c.span.stop = s.considered l c kind state := rfl
    rw [hconsidered] at hconsider
    rw [henters.suppressor_eq, hruling]
    cases hdecision : (s.considered l c kind state).2 with
    | deliver =>
      rw [hdecision] at hconsider
      exact hconsider
    | suppress =>
      rw [hdecision] at hconsider
      exact hconsider

theorem tallied_judgeAll {s : Standing} {published withheld : Nat}
    (h : s.suppressor.Tallied published withheld) (l : Ladder) (closes : List WindowClose) :
    (s.judgeAll l closes).1.suppressor.Tallied
      (published + (s.judgeAll l closes).2.countP (·.2.isPublished))
      (withheld + (s.judgeAll l closes).2.countP (·.2.isWithheld)) := by
  induction closes generalizing s published withheld with
  | nil => exact h
  | cons c closes ih =>
    have hrest := ih (tallied_judge h l c)
    rw [judgeAll_cons, List.countP_cons, List.countP_cons, Nat.add_comm _ (ite _ _ _),
      Nat.add_comm _ (ite _ _ _), ← Nat.add_assoc, ← Nat.add_assoc]
    exact hrest

end Standing

/-- A channel counts every fault that is reported. -/
theorem FaultChannel.total_reportAll (c : FaultChannel) (faults : List Fault) :
    (c.reportAll faults).total = c.total + faults.length := by
  unfold reportAll
  induction faults generalizing c with
  | nil => rfl
  | cons f faults ih =>
    have htotal : (c.report f).total = c.total + 1 := by
      unfold report
      split <;> rfl
    rw [List.foldl_cons, ih, htotal, List.length_cons]
    omega

namespace Effect

@[simp] theorem andThen_none (effect : Effect) : effect.andThen .none = effect := by
  simp [andThen, none]

theorem andThen_assoc (first second third : Effect) :
    (first.andThen second).andThen third = first.andThen (second.andThen third) := by
  simp [andThen]

end Effect

namespace Pipeline

/-- Whether a call brings a sample. -/
def Call.isIngest : Call → Bool
  | .ingest _ => true
  | _ => false

variable {p : Pipeline} {spec : TopicSpec}

/-- The windows that a topic has closed, by the counts of its rules. -/
def rulesClosed (p : Pipeline) : Nat :=
  totalOf (·.counts.windowsClosed) p.aggregators

/-- The rules have counted what a watermark closes. -/
theorem rulesClosed_of_closeThrough {q : Pipeline} {w : Millis}
    (hmap : q.aggregators = p.aggregators.map fun a => (a.closeThrough w).1) :
    q.rulesClosed = p.rulesClosed + (p.due w).length := by
  rw [rulesClosed, hmap, totalOf_map_of_add fun a => a.windowsClosed_closeThrough w,
    (p.due_perm w).length_eq, closes, length_flatMap_eq_totalOf]
  rfl

/-- Every ruling that publishes has its event. -/
theorem length_events_effectOf (p : Pipeline) (w : Millis) (rulings : List (WindowClose × Ruling)) :
    (p.effectOf w rulings).events.length = rulings.countP (·.2.isPublished) := by
  rw [effectOf, List.length_filterMap_eq_countP]
  refine List.countP_congr fun ruling _ => ?_
  obtain ⟨c, ruling⟩ := ruling
  cases ruling <;> simp [eventFor?, Ruling.isPublished]

/-- Every window that came to no aggregate has its fault. -/
theorem length_faults_effectOf (p : Pipeline) (w : Millis) (rulings : List (WindowClose × Ruling)) :
    (p.effectOf w rulings).faults.length = rulings.countP (·.2.isFailed) := by
  rw [effectOf, List.length_filterMap_eq_countP]
  refine List.countP_congr fun ruling _ => ?_
  obtain ⟨c, ruling⟩ := ruling
  cases ruling <;> simp [faultFor?, Ruling.isFailed]

/-- The faults of windows name the ends of the windows. -/
theorem countP_windowEnd_effectOf (p : Pipeline) (w : Millis)
    (rulings : List (WindowClose × Ruling)) :
    (p.effectOf w rulings).faults.countP (·.windowEnd.isSome) =
      rulings.countP (·.2.isFailed) := by
  have hends : ∀ f ∈ (p.effectOf w rulings).faults, f.windowEnd.isSome = true := by
    intro f hf
    obtain ⟨⟨c, ruling⟩, -, hfault⟩ := List.mem_filterMap.mp hf
    cases ruling with
    | failed rule failure =>
      obtain rfl := Option.some.inj hfault
      rfl
    | _ => cases hfault
  rw [List.countP_eq_length.mpr hends, length_faults_effectOf]

/-- Every window that a watermark closes came to an aggregate or failed to. -/
theorem Regular.length_due (h : p.Regular spec) (w : Millis) :
    (p.due w).length = (p.verdict w).2.countP (·.2.isEvaluated) +
      (p.verdict w).2.countP (·.2.isFailed) := by
  have hrules : ∀ c ∈ p.due w, c.ruleIndex < p.spec.ladder.rules.length := by
    rw [h.spec_eq]
    exact fun c hc => h.ruleIndex_lt hc
  have hjudged : (p.verdict w).2.length = (p.due w).length := by
    rw [← List.length_map (f := Prod.fst), verdict, Standing.map_fst_judgeAll]
  rw [← hjudged]
  exact length_eq_countP (Standing.judgeAll_ne_void hrules)

/-- The counts of a topic after a watermark that closed and evaluated windows. -/
theorem counts_conclude_closed (p : Pipeline) (w : Millis) (s : Standing)
    (rulings : List (WindowClose × Ruling)) :
    ((p.closed w).conclude w s rulings).counts =
      { p.counts with
        windowsClosed := p.counts.windowsClosed + (p.due w).length
        evaluations := p.counts.evaluations + rulings.countP (·.2.isEvaluated)
        published := p.counts.published + rulings.countP (·.2.isPublished)
        suppressed := p.counts.suppressed + rulings.countP (·.2.isWithheld)
        faults := p.counts.faults + rulings.countP (·.2.isFailed) } := by
  show (p.counts.close (p.due w).length).ruleAll rulings = _
  rw [TopicCounts.ruleAll_eq]
  rfl

/-- What the windows report about a sample names no window. -/
theorem windowEnd_of_mem_remarks {s : Sample} {f : Fault} (hf : f ∈ p.remarks s) :
    f.windowEnd = none := by
  rcases List.mem_append.mp hf with hf | hf
  · obtain ⟨outcome, -, rfl⟩ := List.mem_map.mp hf
    rfl
  · split at hf
    · rw [List.mem_singleton.mp hf]
      rfl
    · cases hf

/-- A sample that is offered to the rules is counted as one of the kinds. -/
theorem dispositionOf_counted (outcomes : List (Aggregator × Admission)) :
    ((if dispositionOf outcomes = .accepted then 1 else 0) +
        (if dispositionOf outcomes = .late then 1 else 0) +
        (if dispositionOf outcomes = .outOfRange then 1 else 0) +
        if dispositionOf outcomes = .rejected then 1 else 0) = 1 := by
  unfold dispositionOf
  split
  · rfl
  · split <;> rfl

/-- The books of a topic agree with the samples that it was given and with what it has shown. -/
structure Balanced (p : Pipeline) (samples : Nat) (shown : Effect) : Prop where
  alive : p.deleted = false
  samples_eq : samples = p.counts.samplesAccepted + p.counts.lateSamples +
    p.counts.outOfRangeSamples + p.counts.rejectedSamples
  windows_eq : p.rulesClosed = p.counts.windowsClosed + p.counts.windowsDiscarded
  closes_eq : p.counts.windowsClosed =
    p.counts.evaluations + shown.faults.countP (·.windowEnd.isSome)
  published_eq : p.counts.published = shown.events.length
  decided_le : p.counts.published + p.counts.suppressed ≤ p.counts.evaluations
  faults_eq : shown.faults.length = p.counts.faults + p.counts.lateSamples

theorem balanced_new (name : String) (endpoint : Endpoint) (spec : TopicSpec)
    (settings : Settings) : (new name endpoint spec settings).Balanced 0 .none where
  alive := rfl
  samples_eq := rfl
  windows_eq := by
    have hzero : ∀ rules : List Rule, ∀ f : Nat → Rule → Aggregator,
        (∀ i rule, (f i rule).counts.windowsClosed = 0) →
          totalOf (·.counts.windowsClosed) (rules.mapIdx f) = 0 := by
      intro rules
      induction rules with
      | nil => exact fun _ _ => rfl
      | cons rule rules ih =>
        intro f hf
        rw [List.mapIdx_cons, totalOf_cons, hf, ih _ fun i => hf (i + 1)]
    exact hzero _ _ fun _ _ => rfl
  closes_eq := rfl
  published_eq := rfl
  decided_le := Nat.le_refl 0
  faults_eq := rfl

namespace Balanced

variable {samples : Nat} {shown : Effect}

/-- What is not counted has no part in the books. -/
theorem congr {q : Pipeline} (h : p.Balanced samples shown) (hdeleted : q.deleted = p.deleted)
    (haggregators : q.aggregators = p.aggregators) (hcounts : q.counts = p.counts) :
    q.Balanced samples shown := by
  obtain ⟨halive, hsamples, hwindows, hcloses, hpublished, hdecided, hfaults⟩ := h
  refine ⟨hdeleted.trans halive, ?_, ?_, ?_, ?_, ?_, ?_⟩
  · rw [hcounts]; exact hsamples
  · rw [rulesClosed, haggregators, hcounts]; exact hwindows
  · rw [hcounts]; exact hcloses
  · rw [hcounts]; exact hpublished
  · rw [hcounts]; exact hdecided
  · rw [hcounts]; exact hfaults

theorem shows_nothing (h : p.Balanced samples shown) :
    p.Balanced samples (shown.andThen .none) := by
  rw [Effect.andThen_none]
  exact h

/-- A watermark counts each window that it closes as an evaluation or reports its fault. -/
theorem advance (h : p.Balanced samples shown) (hregular : p.Regular spec) (w : Millis) :
    (p.advance w).1.Balanced samples (shown.andThen (p.advance w).2) := by
  cases hskips : p.skips w with
  | true =>
    rw [advance_of_skips hskips]
    exact h.shows_nothing
  | false =>
    have hdue := hregular.length_due w
    have hwindows : ((p.closed w).conclude w (p.verdict w).1 (p.verdict w).2).rulesClosed =
        p.rulesClosed + (p.due w).length := rulesClosed_of_closeThrough rfl
    have hdecided := countP_decided_le (p.verdict w).2
    obtain ⟨halive, hsamples, hclosed, hcloses, hpublished, hdecided', hfaults⟩ := h
    rw [advance_of_new hskips]
    refine ⟨halive, ?_, ?_, ?_, ?_, ?_, ?_⟩
    · rw [counts_conclude_closed]
      exact hsamples
    · rw [counts_conclude_closed, hwindows]
      simp only
      omega
    · rw [counts_conclude_closed, Effect.andThen, List.countP_append, countP_windowEnd_effectOf]
      simp only
      omega
    · rw [counts_conclude_closed, Effect.andThen, List.length_append, length_events_effectOf]
      simp only
      omega
    · rw [counts_conclude_closed]
      simp only
      omega
    · rw [counts_conclude_closed, Effect.andThen, List.length_append, length_faults_effectOf]
      simp only
      omega

theorem follow (h : p.Balanced samples shown) (hregular : p.Regular spec) (t : Millis) :
    (p.follow t).1.Balanced samples (shown.andThen (p.follow t).2) := by
  have hseen : ({ p with latestSeen := some (p.latestWith t) } : Pipeline).Regular spec :=
    hregular.congr rfl rfl
  have hbalanced : ({ p with latestSeen := some (p.latestWith t) } : Pipeline).Balanced
      samples shown := h.congr rfl rfl rfl
  exact p.follow_cases (motive := fun q => q.1.Balanced samples (shown.andThen q.2)) t
    h.shows_nothing (hbalanced.advance hseen)

/-- A sample that is offered to the windows is counted once, as accepted, late or rejected, and each
rule without room for it is counted as a fault. -/
theorem offered (h : p.Balanced samples shown) (s : Sample) :
    (p.offered s (p.countsWith s)).Balanced (samples + 1)
      (shown.andThen ⟨[], p.remarks s⟩) := by
  have hwindows : (p.offered s (p.countsWith s)).rulesClosed = p.rulesClosed :=
    totalOf_map_of_eq (fun a => a.windowsClosed_add s.time s.value) p.aggregators
  have hends : (p.remarks s).countP (·.windowEnd.isSome) = 0 := by
    refine List.countP_eq_zero.mpr fun f hf => ?_
    rw [windowEnd_of_mem_remarks hf]
    exact Bool.false_ne_true
  have hremarks : (p.remarks s).length = (p.overflowFaults (p.offer s).2).length +
      if dispositionOf (p.offer s).2 = .late then 1 else 0 := by
    rw [remarks, List.length_append]
    split <;> rfl
  have hcounted := dispositionOf_counted (p.offer s).2
  have hcounts : (p.offered s (p.countsWith s)).counts =
      { p.counts.add (dispositionOf (p.offer s).2) with
        faults := (p.counts.add (dispositionOf (p.offer s).2)).faults +
          (p.overflowFaults (p.offer s).2).length } := rfl
  obtain ⟨halive, hsamples, hclosed, hcloses, hpublished, hdecided, hfaults⟩ := h
  rw [TopicCounts.add_eq] at hcounts
  refine ⟨halive, ?_, ?_, ?_, ?_, ?_, ?_⟩
  · rw [hcounts]
    simp only
    omega
  · rw [hwindows, hcounts]
    exact hclosed
  · rw [hcounts, Effect.andThen, List.countP_append, hends]
    exact hcloses
  · rw [hcounts, Effect.andThen, List.append_nil]
    exact hpublished
  · rw [hcounts]
    exact hdecided
  · rw [hcounts, Effect.andThen, List.length_append, hremarks]
    simp only
    omega

theorem ingest (h : p.Balanced samples shown) (hregular : p.Regular spec) (s : Sample) :
    (p.ingest s).1.Balanced (samples + 1) (shown.andThen (p.ingest s).2.2) := by
  cases hin : p.spec.inRange s.time with
  | false =>
    rw [ingest_of_outOfRange h.alive hin, Effect.andThen_none]
    obtain ⟨halive, hsamples, hclosed, hcloses, hpublished, hdecided, hfaults⟩ := h
    refine ⟨halive, ?_, hclosed, hcloses, hpublished, hdecided, hfaults⟩
    simp only [TopicCounts.add]
    omega
  | true =>
    rw [ingest_eq h.alive hin, ← Effect.andThen_assoc]
    exact (h.offered s).follow (hregular.offered s _) s.time

/-- A snapshot drops windows, which are counted as discarded. -/
theorem restore (h : p.Balanced samples shown) (s : Snapshot) :
    (p.restore s).Balanced samples shown := by
  unfold Pipeline.restore
  cases s.watermark with
  | none => exact h.congr rfl rfl rfl
  | some w =>
    obtain ⟨halive, hsamples, hclosed, hcloses, hpublished, hdecided, hfaults⟩ := h
    refine ⟨halive, hsamples, ?_, hcloses, hpublished, hdecided, hfaults⟩
    rw [rulesClosed_of_closeThrough (p := p) (w := w)
      (by simp [restoreWatermark, Pipeline.closeThrough]), hclosed, Nat.add_assoc]
    rfl

/-- Every call but the last one of a topic keeps its books in balance. -/
theorem apply (h : p.Balanced samples shown) (hregular : p.Regular spec) {call : Call}
    (halive : call ≠ .shutDown) :
    (p.apply call).1.Balanced (samples + if call.isIngest then 1 else 0)
      (shown.andThen (p.apply call).2.2) := by
  cases call with
  | ingest s => exact h.ingest hregular s
  | advance w => exact h.advance hregular w
  | subscribe id sink =>
    have hcalled : (p.subscribe id sink).Balanced samples shown := h.congr rfl rfl rfl
    exact hcalled.shows_nothing
  | unsubscribe id =>
    have hcalled : (p.unsubscribe id).1.Balanced samples shown := h.congr rfl rfl rfl
    exact hcalled.shows_nothing
  | load text =>
    simp only [Pipeline.apply, Pipeline.load]
    cases Snapshot.load text with
    | error failure => exact h.shows_nothing
    | ok s => exact (h.restore s).shows_nothing
  | shutDown => exact absurd rfl halive

/-- Every history keeps the books in balance until the topic is shut down. -/
theorem run (h : p.Balanced samples shown) (hregular : p.Regular spec) {calls : List Call}
    (halive : Call.shutDown ∉ calls) :
    (p.run calls).1.Balanced (samples + calls.countP Call.isIngest)
      (shown.andThen (effects (p.run calls).2)) := by
  induction calls generalizing p samples shown with
  | nil =>
    have heffects : effects (p.run []).2 = .none := rfl
    rw [heffects, Effect.andThen_none]
    exact h
  | cons call calls ih =>
    obtain ⟨hcall, hcalls⟩ := List.ne_and_not_mem_of_not_mem_cons halive
    have hrest := ih (h.apply hregular (Ne.symm hcall)) (hregular.apply call) hcalls
    have heffects : effects (p.run (call :: calls)).2 =
        (p.apply call).2.2.andThen (effects ((p.apply call).1.run calls).2) := rfl
    rw [heffects, ← Effect.andThen_assoc, List.countP_cons, Nat.add_comm (List.countP _ _),
      ← Nat.add_assoc]
    exact hrest

end Balanced

/-- The records and the detector of a topic have counted what the topic has published, and what it
has withheld. -/
structure Audited (p : Pipeline) (events : List Event) : Prop where
  tallied : p.suppressor.Tallied p.counts.published p.counts.suppressed
  transitions_eq : p.detector.transitions =
    UInt64.ofNat (events.countP fun e => e.kind = .transition)

namespace Audited

variable {events : List Event}

theorem shows_nothing (h : p.Audited events) : p.Audited (events ++ Effect.none.events) := by
  rw [Effect.none, List.append_nil]
  exact h

/-- A watermark counts what it decides. -/
theorem advance (h : p.Audited events) (w : Millis) :
    (p.advance w).1.Audited (events ++ (p.advance w).2.events) := by
  cases hskips : p.skips w with
  | true =>
    rw [advance_of_skips hskips]
    exact h.shows_nothing
  | false =>
    have hleads := p.standing.leads_journal p.spec.ladder (p.due w)
    rw [← p.map_entry_effectOf w] at hleads
    have htransitions : (p.verdict w).1.detector.transitions = p.detector.transitions +
        UInt64.ofNat
          ((p.effectOf w (p.verdict w).2).events.countP fun e => e.kind = .transition) := by
      have hcounted := hleads.transitions_eq
      rw [List.countP_map] at hcounted
      exact hcounted
    rw [advance_of_new hskips]
    constructor
    · rw [counts_conclude_closed]
      exact Standing.tallied_judgeAll (s := p.standing) h.tallied p.spec.ladder (p.due w)
    · rw [List.countP_append, UInt64.ofNat_add, ← h.transitions_eq]
      exact htransitions

theorem follow (h : p.Audited events) (t : Millis) :
    (p.follow t).1.Audited (events ++ (p.follow t).2.events) := by
  have haudited : ({ p with latestSeen := some (p.latestWith t) } : Pipeline).Audited events :=
    ⟨h.tallied, h.transitions_eq⟩
  exact p.follow_cases (motive := fun q => q.1.Audited (events ++ q.2.events)) t
    h.shows_nothing haudited.advance

theorem ingest (h : p.Audited events) (s : Sample) :
    (p.ingest s).1.Audited (events ++ (p.ingest s).2.2.events) := by
  have hcounts : (p.offered s (p.countsWith s)).counts =
      { p.counts.add (dispositionOf (p.offer s).2) with
        faults := (p.counts.add (dispositionOf (p.offer s).2)).faults +
          (p.overflowFaults (p.offer s).2).length } := rfl
  have hoffered : (p.offered s (p.countsWith s)).Audited events := by
    refine ⟨?_, h.transitions_eq⟩
    rw [hcounts, TopicCounts.add_eq]
    exact h.tallied
  have hskipped : ({ p with counts := p.counts.add .outOfRange } : Pipeline).Audited events :=
    ⟨h.tallied, h.transitions_eq⟩
  exact p.ingest_cases (motive := fun q => q.1.Audited (events ++ q.2.2.events)) s
    (fun _ => h.shows_nothing) (fun _ _ => hskipped.shows_nothing) fun _ _ =>
      hoffered.follow s.time

/-- Every call that takes over no snapshot counts what it decides. -/
theorem apply (h : p.Audited events) {call : Call} (hload : ∀ text, call ≠ .load text) :
    (p.apply call).1.Audited (events ++ (p.apply call).2.2.events) := by
  have hnothing : events ++ Effect.none.events = events := List.append_nil events
  cases call with
  | ingest s => exact h.ingest s
  | advance w => exact h.advance w
  | subscribe id sink | unsubscribe id | shutDown =>
    simp only [Pipeline.apply, hnothing]
    exact ⟨h.tallied, h.transitions_eq⟩
  | load text => exact absurd rfl (hload text)

theorem run (h : p.Audited events) {calls : List Call} (hload : ∀ text, Call.load text ∉ calls) :
    (p.run calls).1.Audited (events ++ (effects (p.run calls).2).events) := by
  induction calls generalizing p events with
  | nil =>
    have heffects : (effects (p.run []).2).events = [] := rfl
    rw [heffects, List.append_nil]
    exact h
  | cons call calls ih =>
    have hcall : ∀ text, call ≠ .load text := by
      rintro text rfl
      exact hload text List.mem_cons_self
    have hcalls : ∀ text, Call.load text ∉ calls :=
      fun text hmem => hload text (List.mem_cons_of_mem call hmem)
    rw [events_run_cons, ← List.append_assoc]
    exact ih (h.apply hcall) hcalls

end Audited

/-- All counts of a topic agree, on every history in which it is not shut down and with a channel of
any length for its faults. Each sample is counted as one kind; each window that a rule closes is
counted by the topic as closed or as discarded, and each closed one comes to an evaluation or to a
fault that names its end; the topic counts its events; the channel has counted the faults and the
late samples. If no snapshot is taken over, the records of the suppressor add up to what was
published and withheld, as far as their 64 bits go, and the detector has counted the transitions
among the events. -/
theorem accounts_balance (name : String) (endpoint : Endpoint) (spec : TopicSpec)
    (settings : Settings) (capacity : Nat) (calls : List Call)
    (halive : Call.shutDown ∉ calls) :
    let outcome := (new name endpoint spec settings).run calls
    let counts := outcome.1.counts
    let shown := effects outcome.2
    let channel := (FaultChannel.new capacity).reportAll shown.faults
    calls.countP Call.isIngest = counts.samplesAccepted + counts.lateSamples +
        counts.outOfRangeSamples + counts.rejectedSamples ∧
      outcome.1.rulesClosed = counts.windowsClosed + counts.windowsDiscarded ∧
      counts.windowsClosed =
        counts.evaluations + shown.faults.countP (·.windowEnd.isSome) ∧
      counts.published = shown.events.length ∧
      counts.published + counts.suppressed ≤ counts.evaluations ∧
      channel.total = counts.faults + counts.lateSamples ∧
      ((∀ text, Call.load text ∉ calls) →
        Shows outcome.1.suppressor.totalDelivered counts.published ∧
          Shows outcome.1.suppressor.totalSuppressed counts.suppressed ∧
          outcome.1.detector.transitions =
            UInt64.ofNat (shown.events.countP fun e => e.kind = .transition)) := by
  intro outcome counts shown channel
  have hnothing : Effect.none.andThen shown = shown := rfl
  have hbalanced :
      outcome.1.Balanced (0 + calls.countP Call.isIngest) (Effect.none.andThen shown) :=
    (balanced_new name endpoint spec settings).run (regular_new name endpoint spec settings) halive
  rw [Nat.zero_add, hnothing] at hbalanced
  have htotal : channel.total = shown.faults.length := by
    rw [FaultChannel.total_reportAll, FaultChannel.new, Nat.zero_add]
  refine ⟨hbalanced.samples_eq, hbalanced.windows_eq, hbalanced.closes_eq, hbalanced.published_eq,
    hbalanced.decided_le, ?_, fun hload => ?_⟩
  · rw [htotal]
    exact hbalanced.faults_eq
  · have hfresh : (new name endpoint spec settings).Audited [] :=
      ⟨Suppressor.tallied_initial, rfl⟩
    have haudited := hfresh.run hload
    exact ⟨haudited.tallied.delivered, haudited.tallied.suppressed, haudited.transitions_eq⟩

/-- A topic with a window that is published, one that holds a word, one that stays in its state and
is withheld, a late sample and one outside the time range. -/
theorem accounts_balance_mixed :
    let rule : Rule := ⟨3, some 0.0, none, .lowerIncluded, 1000, 1000, .last, none⟩
    let spec : TopicSpec := ⟨"boiler", "pressure", some 100, none, ⟨[rule], by decide +kernel⟩, rfl⟩
    let calls : List Call :=
      [.ingest ⟨150, .integer 1⟩, .advance 1100, .ingest ⟨200, .integer 2⟩,
        .ingest ⟨1200, .text "open"⟩, .advance 2100, .ingest ⟨2200, .integer 3⟩, .advance 3100,
        .ingest ⟨50, .integer 4⟩]
    let outcome := (new "t" ⟨none, none, "boiler", "pressure"⟩ spec .standard).run calls
    let shown := effects outcome.2
    Call.shutDown ∉ calls ∧ (∀ text, Call.load text ∉ calls) ∧
      outcome.1.counts = ⟨3, 1, 1, 0, 3, 2, 1, 1, 1, 0⟩ ∧
      outcome.1.rulesClosed = 3 ∧ shown.faults.countP (·.windowEnd.isSome) = 1 ∧
      shown.events.length = 1 ∧ ((FaultChannel.new 1).reportAll shown.faults).total = 2 ∧
      outcome.1.suppressor.totalDelivered = 1 ∧ outcome.1.suppressor.totalSuppressed = 1 ∧
      outcome.1.detector.transitions =
        UInt64.ofNat (shown.events.countP fun e => e.kind = .transition) := by
  intro rule spec calls outcome shown
  have halive : Call.shutDown ∉ calls := by simp [calls]
  have hload : ∀ text, Call.load text ∉ calls := by simp [calls]
  have hcounts : outcome.1.counts = ⟨3, 1, 1, 0, 3, 2, 1, 1, 1, 0⟩ := by decide +kernel
  obtain ⟨-, hwindows, hcloses, hpublished, -, htotal, hrecords⟩ :=
    accounts_balance "t" ⟨none, none, "boiler", "pressure"⟩ spec .standard 1 calls halive
  obtain ⟨hdelivered, hsuppressed, htransitions⟩ := hrecords hload
  have hfits : (1 : Nat) < 18446744073709551616 := by decide
  rw [hcounts] at hwindows hcloses hpublished htotal hdelivered hsuppressed
  refine ⟨halive, hload, hcounts, hwindows, ?_, hpublished.symm, htotal,
    hdelivered.exact_of_lt hfits, hsuppressed.exact_of_lt hfits, htransitions⟩
  exact (Nat.add_left_cancel hcloses).symm

end Pipeline

end TelemetryBands
