import TelemetryBands.Proofs.Topic.Due
import TelemetryBands.Proofs.Window.Exactness

/-!
# Topics without overflow

A topic at work, written once more with arithmetic that refuses what 64 bits cannot show, and with
rules looked up by their places, which refuses a place that the ladder does not have. Saturating
sums and differences and the counters of what happened stay as they are. On every history nothing is
refused, and the topic does what it does.
-/

namespace TelemetryBands

namespace PublicationRecord

/-- Decides about a window in which the state persists, by arithmetic that refuses. -/
def repeated? (r : PublicationRecord) (policy : Option RepeatPolicy) (now : Millis) :
    Option (PublicationRecord × Decision) :=
  match policy with
  | some (.count max period) =>
    let r := r.startPeriod period now
    if r.count < max then
      (succ32? r.count).map fun count =>
        ({ r with count, lastPublished := some now }, .deliver)
    else some (r, .suppress)
  | policy => some (r.repeated policy now)

/-- Publications are counted below a bound. -/
theorem repeated?_eq (r : PublicationRecord) (policy : Option RepeatPolicy) (now : Millis) :
    r.repeated? policy now = some (r.repeated policy now) := by
  rcases policy with _ | span | ⟨max, period⟩
  · rfl
  · rfl
  · simp only [repeated?, repeated]
    split
    · rename_i hroom
      rw [succ32?_of_lt hroom, Option.map_some]
    · rfl

/-- Decides about a candidate, by arithmetic that refuses. -/
def consider? (r : PublicationRecord) (candidate : Candidate) (policy : Option RepeatPolicy)
    (now : Millis) : Option (PublicationRecord × Decision) :=
  match candidate with
  | .transition => some (r.enter now, .deliver)
  | .repetition => r.repeated? policy now

theorem consider?_eq (r : PublicationRecord) (candidate : Candidate)
    (policy : Option RepeatPolicy) (now : Millis) :
    r.consider? candidate policy now = some (r.consider candidate policy now) := by
  cases candidate with
  | transition => rfl
  | repetition => exact r.repeated?_eq policy now

end PublicationRecord

/-- Decides about a candidate for a state at an instant, by arithmetic that refuses. -/
def Suppressor.consider? (s : Suppressor) (state : UInt32) (candidate : Candidate)
    (policy : Option RepeatPolicy) (now : Millis) : Option (Suppressor × Decision) :=
  (((s.records.find? state).getD .initial).consider? candidate policy now).map
    fun (record, decision) => (⟨s.records.insert state (record.tally decision)⟩, decision)

theorem Suppressor.consider?_eq (s : Suppressor) (state : UInt32) (candidate : Candidate)
    (policy : Option RepeatPolicy) (now : Millis) :
    s.consider? state candidate policy now = some (s.consider state candidate policy now) := by
  rw [consider?, PublicationRecord.consider?_eq, Option.map_some]
  rfl

/-- How often the rule for a state publishes it again, by the place of the rule; a place that there
is not is refused. -/
def Ladder.repeatPolicyAt? (l : Ladder) (s : UInt32) : Option (Option RepeatPolicy) :=
  match l.indexOfState? s with
  | none => some none
  | some index => (l.rules[index]?).map Rule.repeats

/-- The place of a rule is one of the ladder. -/
theorem Ladder.repeatPolicyAt?_eq (l : Ladder) (s : UInt32) :
    l.repeatPolicyAt? s = some (l.repeatPolicy? s) := by
  unfold repeatPolicyAt? repeatPolicy? indexOfState?
  rw [List.find?_eq_bind_findIdx?_getElem?]
  cases hindex : l.rules.findIdx? (·.state == s) with
  | none => rfl
  | some index =>
    obtain ⟨hlt, -, -⟩ := List.findIdx?_eq_some_iff_getElem.mp hindex
    simp only [List.getElem?_eq_getElem hlt, Option.bind_some, Option.map_some]

namespace Pipeline

/-- Publishes the event of a close, or holds it back, by arithmetic that refuses. -/
def publish? (p : Pipeline) (state : UInt32) (candidate : Candidate) (kind : EventKind)
    (aggregate : Aggregate) (close : WindowClose) (watermark : Millis) :
    Option (Pipeline × Option Event) :=
  (p.spec.ladder.repeatPolicyAt? state).bind fun policy =>
  (p.suppressor.consider? state candidate policy close.span.stop).map fun
  | (suppressor, .suppress) =>
    ({ p with suppressor, counts := { p.counts with suppressed := p.counts.suppressed + 1 } }, none)
  | (suppressor, .deliver) =>
    let event := p.eventOf state kind aggregate close watermark
    ({ p with
        suppressor
        dispatcher := (p.dispatcher.dispatch event).1
        counts := { p.counts with published := p.counts.published + 1 } }, some event)

/-- Takes in the aggregate of a close of a rule, by arithmetic that refuses. -/
def settle? (p : Pipeline) (rule : Rule) (aggregate : Aggregate) (close : WindowClose)
    (watermark : Millis) : Option (Pipeline × Option Event) :=
  let (detector, observation) := p.detector.observe (p.bandOf rule aggregate)
  let p :=
    { p with detector, counts := { p.counts with evaluations := p.counts.evaluations + 1 } }
  match observation with
  | .nothing => some (p, none)
  | .steady state => p.publish? state .repetition .repetition aggregate close watermark
  | .changed _ state => p.publish? state .transition .transition aggregate close watermark

/-- Evaluates one close; a place without rule is refused. -/
def evaluate? (p : Pipeline) (watermark : Millis) (close : WindowClose) :
    Option (Pipeline × Effect) :=
  (p.spec.ladder.rules[close.ruleIndex]?).bind fun rule =>
    match close.aggregate with
    | .error failure =>
      some ({ p with counts := { p.counts with faults := p.counts.faults + 1 } },
        ⟨[], [p.evaluationFault rule close failure]⟩)
    | .ok aggregate =>
      (p.settle? rule aggregate close watermark).map fun (p, event) => (p, ⟨event.toList, []⟩)

/-- Evaluates closes in their order, by arithmetic that refuses. -/
def evaluateAll? (p : Pipeline) (watermark : Millis) :
    List WindowClose → Option (Pipeline × Effect)
  | [] => some (p, .none)
  | close :: closes =>
    (p.evaluate? watermark close).bind fun (next, first) =>
    (next.evaluateAll? watermark closes).map fun (final, rest) => (final, first.andThen rest)

/-- Moves the watermark on and evaluates the windows that it passes, by arithmetic that refuses. -/
def advance? (p : Pipeline) (watermark : Millis) : Option (Pipeline × Effect) :=
  if p.deleted || p.hasReached watermark then some (p, .none)
  else
    let (p, closes) := { p with watermark := some watermark }.closeThrough watermark
    let p := { p with
      counts := { p.counts with windowsClosed := p.counts.windowsClosed + closes.length } }
    p.evaluateAll? watermark closes

/-- Offers a sample to the windows of every rule, by arithmetic that refuses. -/
def offer? (p : Pipeline) (s : Sample) : Option (Pipeline × List (Aggregator × Admission)) :=
  (p.aggregators.mapM fun (a : Aggregator) => a.add? s.time s.value).map fun outcomes =>
    ({ p with aggregators := outcomes.map Prod.fst }, outcomes)

/-- The faults of the rules that had no room for a sample, by their places; a place without rule is
refused. -/
def overflowFaults? (p : Pipeline) (outcomes : List (Aggregator × Admission)) :
    Option (List Fault) :=
  (outcomes.filter fun outcome => 0 < outcome.2.overflowed).mapM fun outcome =>
    (p.spec.ladder.rules[outcome.1.ruleIndex]?).map p.overflowFault

/-- Moves the watermark behind a sample, if samples move it, by arithmetic that refuses. -/
def follow? (p : Pipeline) (t : Millis) : Option (Pipeline × Effect) :=
  match p.policy with
  | .manual => some (p, .none)
  | .eventTime allowedLateness =>
    let latest := (p.latestSeen.map fun seen => seen.later t).getD t
    { p with latestSeen := some latest }.advance? (latest.satSub allowedLateness)

/-- Takes a sample in, by arithmetic that refuses. -/
def ingest? (p : Pipeline) (s : Sample) : Option (Pipeline × Disposition × Effect) :=
  if p.deleted then some (p, .deleted, .none)
  else if !p.spec.inRange s.time then
    some ({ p with counts := p.counts.add .outOfRange }, .outOfRange, .none)
  else
    (p.offer? s).bind fun (p, outcomes) =>
    (p.overflowFaults? outcomes).bind fun overflows =>
      let disposition := dispositionOf outcomes
      let late := if disposition = .late then [p.lateFault s.time] else []
      let counts := p.counts.add disposition
      let p := { p with counts := { counts with faults := counts.faults + overflows.length } }
      (p.follow? s.time).map fun (p, effect) =>
        (p, disposition, Effect.andThen ⟨[], overflows ++ late⟩ effect)

/-- Makes one call; samples and watermarks are taken in by arithmetic that refuses. -/
def call? (p : Pipeline) : Call → Option (Pipeline × Reply × Effect)
  | .ingest s =>
    (p.ingest? s).map fun (p, disposition, effect) => (p, .disposition disposition, effect)
  | .advance watermark => (p.advance? watermark).map fun (p, effect) => (p, .done, effect)
  | call => some (p.apply call)

/-- Makes a list of calls, by arithmetic that refuses. -/
def run? (p : Pipeline) : List Call → Option (Pipeline × List (Reply × Effect))
  | [] => some (p, [])
  | call :: calls =>
    (p.call? call).bind fun (next, reply) =>
    (next.run? calls).map fun (final, replies) => (final, reply :: replies)

variable {p : Pipeline} {spec : TopicSpec}

theorem publish?_eq (p : Pipeline) (state : UInt32) (candidate : Candidate) (kind : EventKind)
    (aggregate : Aggregate) (close : WindowClose) (watermark : Millis) :
    p.publish? state candidate kind aggregate close watermark =
      some (p.publish state candidate kind aggregate close watermark) := by
  unfold publish? publish
  rw [Ladder.repeatPolicyAt?_eq, Option.bind_some, Suppressor.consider?_eq]
  obtain ⟨suppressor, decision⟩ := p.suppressor.consider state candidate
    (p.spec.ladder.repeatPolicy? state) close.span.stop
  cases decision <;> rfl

theorem settle?_eq (p : Pipeline) (rule : Rule) (aggregate : Aggregate) (close : WindowClose)
    (watermark : Millis) :
    p.settle? rule aggregate close watermark =
      some (p.settle rule aggregate close watermark) := by
  unfold settle? settle
  obtain ⟨detector, observation⟩ := p.detector.observe (p.bandOf rule aggregate)
  cases observation with
  | nothing => rfl
  | steady state => exact publish?_eq _ _ _ _ _ _ _
  | changed left state => exact publish?_eq _ _ _ _ _ _ _

/-- A close of a rule is not refused. -/
theorem evaluate?_eq (watermark : Millis) {close : WindowClose}
    (h : close.ruleIndex < p.spec.ladder.rules.length) :
    p.evaluate? watermark close = some (p.evaluate watermark close) := by
  unfold evaluate? evaluate
  rw [List.getElem?_eq_getElem h, Option.bind_some]
  cases close.aggregate with
  | error failure => rfl
  | ok aggregate =>
    simp only [settle?_eq, Option.map_some]

/-- Evaluation leaves the ladder alone. -/
theorem spec_evaluate (p : Pipeline) (watermark : Millis) (close : WindowClose) :
    (p.evaluate watermark close).1.spec = p.spec := by
  rw [evaluate_eq]
  rfl

theorem evaluateAll?_eq (watermark : Millis) {closes : List WindowClose}
    (h : ∀ close ∈ closes, close.ruleIndex < p.spec.ladder.rules.length) :
    p.evaluateAll? watermark closes = some (p.evaluateAll watermark closes) := by
  induction closes generalizing p with
  | nil => rfl
  | cons close closes ih =>
    obtain ⟨hclose, hcloses⟩ := List.forall_mem_cons.mp h
    have hrest := ih (p := (p.evaluate watermark close).1) (by rw [spec_evaluate]; exact hcloses)
    rw [evaluateAll?, evaluate?_eq watermark hclose, Option.bind_some]
    simp only [hrest, Option.map_some]
    rfl

namespace Regular

/-- A watermark is not refused, since all closes are closes of a rule. -/
theorem advance?_eq (h : p.Regular spec) (w : Millis) : p.advance? w = some (p.advance w) := by
  unfold advance? Pipeline.advance
  split
  · rfl
  · refine evaluateAll?_eq w fun close hclose => ?_
    show close.ruleIndex < p.spec.ladder.rules.length
    rw [h.spec_eq]
    exact h.ruleIndex_lt hclose

theorem follow?_eq (h : p.Regular spec) (t : Millis) : p.follow? t = some (p.follow t) := by
  cases hpolicy : p.policy with
  | manual => simp only [follow?, Pipeline.follow, hpolicy]
  | eventTime lateness =>
    have hseen : ({ p with latestSeen := some (p.latestWith t) } : Pipeline).Regular spec :=
      h.congr rfl rfl
    have hfollow : p.follow? t =
        ({ p with latestSeen := some (p.latestWith t) } : Pipeline).advance?
          ((p.latestWith t).satSub lateness) := by
      unfold follow?
      rw [hpolicy]
      rfl
    rw [hfollow, follow_of_eventTime hpolicy]
    exact hseen.advance?_eq _

/-- A sample is not refused by any window. -/
theorem offer?_eq (h : p.Regular spec) (s : Sample) : p.offer? s = some (p.offer s) := by
  have hadd : ∀ a ∈ p.aggregators, a.add? s.time s.value = some (a.add s.time s.value) :=
    fun a ha => Aggregator.add?_eq (h.windows ha).proper s.time s.value
  rw [offer?, mapM_eq_some_map hadd, Option.map_some]
  rfl

/-- The places of the rules that had no room are places of the ladder. -/
theorem overflowFaults?_eq (h : p.Regular spec) (s : Sample) :
    (p.offer s).1.overflowFaults? (p.offer s).2 =
      some ((p.offer s).1.overflowFaults (p.offer s).2) := by
  refine mapM_eq_some_map fun outcome houtcome => ?_
  obtain ⟨a, ha, rfl⟩ := List.mem_map.mp (List.mem_of_mem_filter houtcome)
  obtain ⟨i, hi⟩ := List.getElem?_of_mem ha
  obtain ⟨hrule, hindex, -⟩ := h.place hi
  show (p.spec.ladder.rules[(a.add s.time s.value).1.ruleIndex]?).map _ = _
  rw [a.add_ruleIndex, hindex, h.spec_eq, hrule, Option.map_some, a.add_rule]

/-- A sample is not refused. -/
theorem ingest?_eq (h : p.Regular spec) (s : Sample) : p.ingest? s = some (p.ingest s) := by
  unfold ingest? Pipeline.ingest
  split
  · rfl
  · split
    · rfl
    · have hnext : ∀ counts, ({ (p.offer s).1 with counts := counts } : Pipeline).Regular spec :=
        fun counts => (h.offered s counts).congr rfl (by simp [Pipeline.offer, Pipeline.offered])
      rw [h.offer?_eq, Option.bind_some]
      simp only [h.overflowFaults?_eq, Option.bind_some, (hnext _).follow?_eq, Option.map_some]

theorem call?_eq (h : p.Regular spec) (call : Call) : p.call? call = some (p.apply call) := by
  cases call with
  | ingest s =>
    rw [call?, h.ingest?_eq, Option.map_some]
    rfl
  | advance w =>
    rw [call?, h.advance?_eq, Option.map_some]
    rfl
  | subscribe id sink | unsubscribe id | load text | shutDown => rfl

/-- No call of a history is refused. -/
theorem run?_eq (h : p.Regular spec) (calls : List Call) : p.run? calls = some (p.run calls) := by
  induction calls generalizing p with
  | nil => rfl
  | cons call calls ih =>
    rw [run?, h.call?_eq, Option.bind_some]
    simp only [ih (h.apply call), Option.map_some]
    rfl

end Regular

/-- No topic can leave the clock or its ladder. For every topic with a ladder without flaw, whatever
its time range and settings, and on every history, with samples and watermarks at any instants, each
sum, difference, product and quotient is one that 64 bits can show, no divisor is zero, and every
place of a rule is one of the ladder: calculated by arithmetic that refuses all else, the topic does
what it does. The same holds of the number of windows that the samples of its rules lie in. -/
theorem nothing_is_refused (name : String) (endpoint : Endpoint) (spec : TopicSpec)
    (settings : Settings) (calls : List Call) :
    let fresh := new name endpoint spec settings
    fresh.run? calls = some (fresh.run calls) ∧
      ∀ rule ∈ spec.ladder.rules,
        ∃ n, rule.windowsPerSample? = some n ∧ n.val = rule.windowsPerSample :=
  ⟨(regular_new name endpoint spec settings).run?_eq calls,
    fun _ hrule => Rule.exists_windowsPerSample? (Ladder.flaw?_of_mem hrule)⟩

end Pipeline

end TelemetryBands
