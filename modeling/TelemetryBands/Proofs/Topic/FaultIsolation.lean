import TelemetryBands.Proofs.Topic.Due
import TelemetryBands.Proofs.Window.Spoilage

/-!
# Isolated faults

A close that came to no aggregate is counted and reported, and that is all: the topic goes on as if
the rule had closed no window. So a batch of closes is evaluated by its sound members alone, and its
faults are those of the others, one for each. Which closes fail is seen in their windows, which on
every history of a topic are filled.
-/

namespace TelemetryBands

/-- A property of aggregators that offering, closing and clearing keep. -/
structure Aggregator.Invariant (P : Aggregator → Prop) : Prop where
  add : ∀ {a : Aggregator}, a.Regular → P a → ∀ t value, P (a.add t value).1
  closeThrough : ∀ {a : Aggregator}, P a → ∀ w, P (a.closeThrough w).1
  clear : ∀ {a : Aggregator}, P a → P a.clear

theorem Aggregator.invariant_filled : Aggregator.Invariant Aggregator.Filled where
  add := fun hregular h t value => h.add hregular t value
  closeThrough := fun h w => h.closeThrough w
  clear := fun _ => Filled.clear

namespace Pipeline

variable {p : Pipeline} {w : Millis} {spec : TopicSpec}

section Invariants

variable {P : Aggregator → Prop}

theorem forall_map {q : Pipeline} {f : Aggregator → Aggregator} (h : ∀ a ∈ p.aggregators, P a)
    (hmap : q.aggregators = p.aggregators.map f) (hstep : ∀ a ∈ p.aggregators, P a → P (f a)) :
    ∀ a ∈ q.aggregators, P a := by
  rw [hmap]
  exact List.forall_mem_map.mpr fun a ha => hstep a ha (h a ha)

theorem forall_advance (hP : Aggregator.Invariant P) (h : ∀ a ∈ p.aggregators, P a) (w : Millis) :
    ∀ a ∈ (p.advance w).1.aggregators, P a :=
  p.advance_cases (motive := fun q => ∀ a ∈ q.1.aggregators, P a) w (fun _ => h) fun _ =>
    forall_map h rfl fun _ _ ha => hP.closeThrough ha w

theorem forall_ingest (hP : Aggregator.Invariant P) (hregular : p.Regular spec)
    (h : ∀ a ∈ p.aggregators, P a) (s : Sample) : ∀ a ∈ (p.ingest s).1.aggregators, P a := by
  have hoffered : ∀ a ∈ (p.offered s (p.countsWith s)).aggregators, P a :=
    forall_map h rfl fun _ ha hPa => hP.add (hregular.windows ha) hPa s.time s.value
  refine p.ingest_cases (motive := fun q => ∀ a ∈ q.1.aggregators, P a) s (fun _ => h)
    (fun _ _ => h) fun _ _ => ?_
  exact follow_cases (motive := fun q => ∀ a ∈ q.1.aggregators, P a) _ s.time hoffered
    fun w => forall_advance hP (by exact hoffered) w

theorem forall_restore (hP : Aggregator.Invariant P) (h : ∀ a ∈ p.aggregators, P a)
    (s : Snapshot) : ∀ a ∈ (p.restore s).aggregators, P a := by
  unfold restore
  cases s.watermark with
  | none => exact h
  | some w =>
    refine forall_map (f := fun a => (a.closeThrough w).1) h ?_ fun _ _ ha => hP.closeThrough ha w
    simp [restoreWatermark, closeThrough]

/-- What offering, closing and clearing keep of aggregators is kept by every call on a topic. -/
theorem forall_apply (hP : Aggregator.Invariant P) (hregular : p.Regular spec)
    (h : ∀ a ∈ p.aggregators, P a) (call : Call) : ∀ a ∈ (p.apply call).1.aggregators, P a := by
  cases call with
  | ingest s => exact forall_ingest hP hregular h s
  | advance w => exact forall_advance hP h w
  | subscribe id sink | unsubscribe id => exact h
  | load text =>
    simp only [apply, load]
    cases Snapshot.load text with
    | error failure => exact h
    | ok s => exact forall_restore hP h s
  | shutDown => exact forall_map h rfl fun _ _ ha => hP.clear ha

/-- What offering, closing and clearing keep of aggregators is kept on every history. -/
theorem forall_run (hP : Aggregator.Invariant P) (hregular : p.Regular spec)
    (h : ∀ a ∈ p.aggregators, P a) (calls : List Call) :
    ∀ a ∈ (p.run calls).1.aggregators, P a := by
  induction calls generalizing p with
  | nil => exact h
  | cons call calls ih => exact ih (hregular.apply call) (forall_apply hP hregular h call)

end Invariants

/-- On every history of a new topic the windows are filled. -/
theorem filled_run (name : String) (endpoint : Endpoint) (spec : TopicSpec) (settings : Settings)
    (calls : List Call) :
    ∀ a ∈ ((new name endpoint spec settings).run calls).1.aggregators, a.Filled := by
  apply forall_run Aggregator.invariant_filled (regular_new name endpoint spec settings)
  intro a ha
  obtain ⟨i, hi, rfl⟩ := List.mem_mapIdx.mp ha
  exact Aggregator.filled_new _ _ _ _

/-- A topic that has counted more faults. -/
def withFaults (p : Pipeline) (n : Nat) : Pipeline :=
  { p with counts := { p.counts with faults := p.counts.faults + n } }

/-- A fault is the one that a topic owes to a close: it has the state of the rule of the close, the
end of its window, and the reason for which there is no aggregate. -/
def Owes (p : Pipeline) (c : WindowClose) (fault : Fault) : Prop :=
  ∃ rule failure, p.spec.ladder.rules[c.ruleIndex]? = some rule ∧ c.aggregate = .error failure ∧
    fault = ⟨p.name, some rule.state, some c.span.stop, failure⟩

theorem withFaults_withFaults (p : Pipeline) (m n : Nat) :
    (p.withFaults m).withFaults n = p.withFaults (m + n) := by
  simp only [withFaults, Nat.add_assoc]

/-- A close without an aggregate is counted and reported. -/
theorem evaluate_of_error {c : WindowClose} {rule : Rule} {failure : Failure}
    (hrule : p.spec.ladder.rules[c.ruleIndex]? = some rule)
    (hfailed : c.aggregate = .error failure) :
    p.evaluate w c =
      (p.withFaults 1, ⟨[], [⟨p.name, some rule.state, some c.span.stop, failure⟩]⟩) := by
  simp only [evaluate, hrule, hfailed]
  rfl

/-- A close with an aggregate is no fault. -/
theorem faults_evaluate_of_ok {c : WindowClose} {aggregate : Aggregate}
    (hsound : c.aggregate = .ok aggregate) : (p.evaluate w c).2.faults = [] := by
  unfold evaluate
  rw [hsound]
  cases p.spec.ladder.rules[c.ruleIndex]? <;> rfl

/-- Faults that were counted before have no part in an evaluation. -/
theorem evaluate_withFaults (p : Pipeline) (n : Nat) (w : Millis) (c : WindowClose) :
    (p.withFaults n).evaluate w c = ((p.evaluate w c).1.withFaults n, (p.evaluate w c).2) := by
  have hcounts : ∀ ruling, (p.withFaults n).counts.ruleAll [(c, ruling)] =
      { p.counts.ruleAll [(c, ruling)] with
        faults := (p.counts.ruleAll [(c, ruling)]).faults + n } := by
    intro ruling
    cases ruling <;> simp [withFaults, TopicCounts.ruleAll, TopicCounts.rule, Nat.add_right_comm]
  rw [evaluate_eq, evaluate_eq]
  simp only [conclude, hcounts]
  rfl

theorem evaluateAll_withFaults (p : Pipeline) (n : Nat) (w : Millis) (closes : List WindowClose) :
    (p.withFaults n).evaluateAll w closes =
      ((p.evaluateAll w closes).1.withFaults n, (p.evaluateAll w closes).2) := by
  induction closes generalizing p with
  | nil => rfl
  | cons c closes ih => simp only [evaluateAll, evaluate_withFaults, ih]

/-- The faults that closes are owed show their rules and the ends of their windows. -/
theorem map_of_owes {closes : List WindowClose} {faults : List Fault}
    (h : List.Forall₂ p.Owes closes faults) :
    faults.map (fun f => (f.state, f.windowEnd)) =
      closes.map fun c => (p.spec.ladder.rules[c.ruleIndex]?.map Rule.state, some c.span.stop) := by
  induction h with
  | nil => rfl
  | cons howes _ ih =>
    obtain ⟨rule, failure, hrule, -, rfl⟩ := howes
    rw [List.map_cons, List.map_cons, ih, hrule]
    rfl

/-- A batch is evaluated by its sound members; the others are counted, and each is owed a fault. -/
theorem evaluateAll_filter (p : Pipeline) (w : Millis) (closes : List WindowClose)
    (hrules : ∀ c ∈ closes, c.ruleIndex < p.spec.ladder.rules.length) :
    (p.evaluateAll w closes).1 =
        (p.evaluateAll w (closes.filter fun c => c.aggregate.isOk)).1.withFaults
          (closes.filter fun c => !c.aggregate.isOk).length ∧
      (p.evaluateAll w closes).2.events =
        (p.evaluateAll w (closes.filter fun c => c.aggregate.isOk)).2.events ∧
      List.Forall₂ p.Owes (closes.filter fun c => !c.aggregate.isOk)
        (p.evaluateAll w closes).2.faults := by
  induction closes generalizing p with
  | nil => exact ⟨rfl, rfl, .nil⟩
  | cons c closes ih =>
    obtain ⟨hrule, hrest⟩ := List.forall_mem_cons.mp hrules
    cases haggregate : c.aggregate with
    | ok aggregate =>
      have hspec : (p.evaluate w c).1.spec = p.spec := by
        rw [evaluate_eq]
        rfl
      have howes : (p.evaluate w c).1.Owes = p.Owes := by
        rw [evaluate_eq]
        rfl
      have hsound : c.aggregate.isOk = true := by rw [haggregate]; rfl
      obtain ⟨hstate, hevents, hfaults⟩ := ih (p.evaluate w c).1 (by rwa [hspec])
      simp only [List.filter_cons, hsound, Bool.not_true, Bool.false_eq_true, if_true, if_false,
        evaluateAll, Effect.andThen, faults_evaluate_of_ok haggregate, List.nil_append]
      rw [howes] at hfaults
      exact ⟨hstate, by rw [hevents], hfaults⟩
    | error failure =>
      obtain ⟨rule, hget⟩ : ∃ rule, p.spec.ladder.rules[c.ruleIndex]? = some rule :=
        ⟨_, List.getElem?_eq_getElem hrule⟩
      have hfailed : c.aggregate.isOk = false := by rw [haggregate]; rfl
      obtain ⟨hstate, hevents, hfaults⟩ := ih p hrest
      simp only [List.filter_cons, hfailed, Bool.not_false, Bool.false_eq_true, if_true, if_false,
        evaluateAll, evaluate_of_error hget haggregate, evaluateAll_withFaults, Effect.andThen,
        List.nil_append, List.singleton_append]
      refine ⟨?_, hevents, .cons ⟨rule, failure, hget, haggregate, rfl⟩ hfaults⟩
      rw [hstate, withFaults_withFaults]
      rfl

/-- What a watermark finds: the topic with its windows closed, and the closes in the order in which
they are evaluated. A watermark that does nothing finds the topic as it is. -/
def gather (p : Pipeline) (w : Millis) : Pipeline × List WindowClose :=
  if p.skips w then (p, []) else (p.closed w, p.due w)

theorem advance_eq_gather (p : Pipeline) (w : Millis) :
    p.advance w = (p.gather w).1.evaluateAll w (p.gather w).2 := by
  unfold gather
  cases hskips : p.skips w with
  | true =>
    rw [advance_of_skips hskips]
    rfl
  | false =>
    rw [advance_of_new hskips, if_neg Bool.false_ne_true, evaluateAll_eq]
    rfl

theorem spec_gather (p : Pipeline) (w : Millis) : (p.gather w).1.spec = p.spec := by
  unfold gather
  split <;> rfl

theorem mem_due_of_mem_gather {c : WindowClose} (hc : c ∈ (p.gather w).2) : c ∈ p.due w := by
  unfold gather at hc
  split at hc
  · cases hc
  · exact hc

/-- Faults are isolated to their windows. On every history of a new topic and for every watermark,
the topic goes on from the closed windows as if only the closes with an aggregate had been there,
in their order: with the same events, band, records and subscribers, and with nothing but the number
of its faults raised by one for each other close. The faults are those of the other closes, one
each, with the state of the rule, the end of the window and the reason. And a close has no aggregate
exactly if the open window that it is made of is spoiled for the rule. -/
theorem faults_are_isolated (name : String) (endpoint : Endpoint) (spec : TopicSpec)
    (settings : Settings) (calls : List Call) (w : Millis) :
    let p := ((new name endpoint spec settings).run calls).1
    let closes := (p.gather w).2
    let sound := (p.gather w).1.evaluateAll w (closes.filter fun c => c.aggregate.isOk)
    let failed := closes.filter fun c => !c.aggregate.isOk
    (p.advance w).1 = sound.1.withFaults failed.length ∧
      (p.advance w).2.events = sound.2.events ∧
      List.Forall₂ (p.gather w).1.Owes failed (p.advance w).2.faults ∧
      ∀ c ∈ closes, ∃ a ∈ p.aggregators, ∃ s window, a.openWindows.find? s = some window ∧
        spec.ladder.rules[c.ruleIndex]? = some a.rule ∧ c = a.closeOf window ∧
        (c.aggregate.isOk = false ↔ Aggregate.Spoiled a.rule window.samples) := by
  intro p closes sound failed
  have hregular : p.Regular spec := (regular_new name endpoint spec settings).run calls
  have hfilled : ∀ a ∈ p.aggregators, a.Filled := filled_run name endpoint spec settings calls
  have hrules : ∀ c ∈ closes, c.ruleIndex < (p.gather w).1.spec.ladder.rules.length := by
    intro c hc
    rw [spec_gather, hregular.spec_eq]
    exact hregular.ruleIndex_lt (mem_due_of_mem_gather hc)
  obtain ⟨hstate, hevents, hfaults⟩ := evaluateAll_filter (p.gather w).1 w closes hrules
  rw [advance_eq_gather]
  refine ⟨hstate, hevents, hfaults, fun c hc => ?_⟩
  obtain ⟨a, ha, hca⟩ := mem_due.mp (mem_due_of_mem_gather hc)
  obtain ⟨s, window, hfind, hclose, hspoiled⟩ := (hfilled a ha).exists_of_mem_closeThrough hca
  obtain ⟨i, hi⟩ := List.getElem?_of_mem ha
  obtain ⟨hrule, hindex, -⟩ := hregular.place hi
  refine ⟨a, ha, s, window, hfind, ?_, hclose, hspoiled⟩
  rw [Aggregator.ruleIndex_of_mem hca, hindex]
  exact hrule

/-- A count, a mean and a last value of the samples of the same windows. -/
def threeRules : Ladder where
  rules :=
    [⟨1, some 0.0, some 10.0, .lowerIncluded, 1000, 1000, .count, none⟩,
      ⟨2, some 10.0, some 20.0, .lowerIncluded, 1000, 1000, .avg, none⟩,
      ⟨3, some 20.0, none, .lowerIncluded, 1000, 1000, .last, none⟩]
  sound := by decide +kernel

/-- A word among the samples of a window takes the mean away, and neither the count nor the last
value. -/
theorem faults_are_isolated_word :
    let spec : TopicSpec := ⟨"boiler", "pressure", none, none, threeRules, rfl⟩
    let fresh := new "t" ⟨none, none, "boiler", "pressure"⟩ spec .standard
    let p := (fresh.run [.ingest ⟨100, .text "open"⟩, .ingest ⟨200, .integer 25⟩]).1
    (p.advance 1000).2.events.map (fun e => (e.state, e.windowEnd)) = [(1, 1000), (3, 1000)] ∧
      (p.advance 1000).2.faults.map (fun f => (f.state, f.windowEnd)) = [(some 2, some 1000)] ∧
      (p.advance 1000).1.counts.faults = 1 ∧ (p.advance 1000).1.band = .state 3 := by
  intro spec fresh p
  have hgather : p.gather 1000 = (p.closed 1000, p.closes 1000) := by
    have hskips : p.skips 1000 = false := by decide +kernel
    rw [gather, hskips, due_eq_closes (by decide +kernel)]
    rfl
  obtain ⟨hstate, hevents, hfaults, -⟩ := faults_are_isolated "t"
    ⟨none, none, "boiler", "pressure"⟩ spec .standard
    [.ingest ⟨100, .text "open"⟩, .ingest ⟨200, .integer 25⟩] 1000
  change (p.advance 1000).1 = ((p.gather 1000).1.evaluateAll 1000
    ((p.gather 1000).2.filter fun c => c.aggregate.isOk)).1.withFaults _ at hstate
  have hplaces := map_of_owes hfaults
  change (p.advance 1000).2.faults.map _ = ((p.gather 1000).2.filter _).map _ at hplaces
  rw [hplaces, hevents, hstate, hgather]
  decide +kernel

end Pipeline

end TelemetryBands
