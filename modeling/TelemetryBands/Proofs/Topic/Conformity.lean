import TelemetryBands.Proofs.Publication.Grouping
import TelemetryBands.Proofs.Topic.Republication
import TelemetryBands.Proofs.Window.FiniteAggregates
import TelemetryBands.Proofs.Window.Provenance

/-!
# Values in messages

An event reports what the rule of its window made of samples that the topic was given, and its
message is read back with that number as the value. A document has no numeral for an infinite number
and holds `null` in its place; this is so exactly where a rule adds up and the sum of its finite
samples leaves the range of floating-point numbers.
-/

namespace TelemetryBands

/-- A rule adds up the samples of a window, all of which are finite, and their sum is not. -/
def Aggregate.Overflows (rule : Rule) (samples : List WindowSample) : Prop :=
  Adds rule ∧ ∃ xs, WindowSample.numbers samples = .ok xs ∧
    (∀ x ∈ xs, Decimal.isFinite x = true) ∧ Decimal.isFinite (sum xs) = false

/-- An event reports what a rule of a ladder made of samples, which come from a list in their order
and lie in the window of the event, and the state that it came to. -/
structure Event.Reports (e : Event) (rule : Rule) (samples : List WindowSample) (l : Ladder)
    (given : List Sample) : Prop where
  rule_mem : rule ∈ l.rules
  drawn : (samples.map WindowSample.sample).Sublist given
  within : ∀ s ∈ samples, e.window.contains s.time = true
  reported : ∃ aggregate, Aggregate.ofSamples rule samples = .ok aggregate ∧
    e.value = aggregate.reported ∧ l.bandOf rule aggregate = .state e.state

/-- The message of an event as a document, with a value in its place. -/
def Event.document (e : Event) (value : Json) : Json :=
  .record
    [("time", e.windowEnd.toJson),
     ("datas", .array
       [.record [("device", .ofText e.device), ("point", .ofText e.point), ("value", value)]])]

theorem Event.document_inj {e : Event} {value value' : Json} :
    e.document value = e.document value' ↔ value = value' := by
  simp [document, Json.record]

/-- The text of a message is read back. -/
theorem Message.parse?_encode (e : Event) :
    Json.parse? (ofEvent e).encode = some (e.document (.ofFloat e.value)) :=
  Json.parse?_compact (ofEvent e).legible_toJson

namespace Event.Reports

variable {e : Event} {rule : Rule} {samples : List WindowSample} {l : Ladder}
  {given given' : List Sample}

theorem mono (h : e.Reports rule samples l given) (hsub : given.Sublist given') :
    e.Reports rule samples l given' :=
  ⟨h.rule_mem, h.drawn.trans hsub, h.within, h.reported⟩

theorem length_le (h : e.Reports rule samples l given) : samples.length ≤ given.length := by
  rw [← List.length_map]
  exact h.drawn.length_le

/-- The value of a message is a number, or the rule overflows and it is `null`. -/
theorem ofFloat_value (h : e.Reports rule samples l given) (hlt : samples.length < 2 ^ 64) :
    (¬ Aggregate.Overflows rule samples ∧ ∃ n, Json.ofFloat e.value = .number n) ∨
      (Aggregate.Overflows rule samples ∧ Json.ofFloat e.value = .null) := by
  obtain ⟨aggregate, hsamples, hvalue, -⟩ := h.reported
  have hfinite : Decimal.isFinite e.value = false ↔ Aggregate.Overflows rule samples := by
    rw [hvalue]
    rcases Aggregate.isFinite_reported hsamples hlt with ⟨hfinite, hnot⟩ |
      ⟨xs, hxs, hadds, hfinite⟩
    · rw [hfinite]
      exact ⟨nofun, fun hover => absurd hover.1 hnot⟩
    · rw [hfinite]
      refine ⟨fun hsum => ⟨hadds, xs, hxs, (WindowSample.numbers_ok hxs).2, hsum⟩, ?_⟩
      rintro ⟨-, ys, hys, -, hsum⟩
      rw [hxs] at hys
      rwa [Except.ok.inj hys]
  rw [← hfinite, ← Json.ofFloat_eq_null]
  rcases Json.ofFloat_cases e.value with ⟨n, hnumber⟩ | hnull
  · exact .inl ⟨by rw [hnumber]; exact nofun, n, hnumber⟩
  · exact .inr ⟨hnull, hnull⟩

end Event.Reports

namespace Pipeline

/-- The sample that a call gives to a topic. -/
def Call.sample? : Call → Option Sample
  | .ingest s => some s
  | _ => none

/-- The windows of a topic hold samples from a list. -/
def DrawsOn (p : Pipeline) (given : List Sample) : Prop :=
  ∀ a ∈ p.aggregators, a.DrawsOn given

/-- Every event reports what a rule made of samples from a list. -/
def Reporting (events : List Event) (l : Ladder) (given : List Sample) : Prop :=
  ∀ e ∈ events, ∃ rule samples, e.Reports rule samples l given

variable {p : Pipeline} {spec : TopicSpec} {given given' : List Sample} {w : Millis}

theorem Reporting.nothing {l : Ladder} : Reporting [] l given :=
  List.forall_mem_nil _

theorem Reporting.mono {events : List Event} {l : Ladder} (h : Reporting events l given)
    (hsub : given.Sublist given') : Reporting events l given' := by
  intro e he
  obtain ⟨rule, samples, hreports⟩ := h e he
  exact ⟨rule, samples, hreports.mono hsub⟩

theorem drawsOn_new (name : String) (endpoint : Endpoint) (spec : TopicSpec)
    (settings : Settings) : (new name endpoint spec settings).DrawsOn given := by
  intro a ha
  obtain ⟨i, hi, rfl⟩ := List.mem_mapIdx.mp ha
  exact Aggregator.drawsOn_new _ _ _ _

namespace DrawsOn

theorem of_map {q : Pipeline} (f : Aggregator → Aggregator)
    (hmap : q.aggregators = p.aggregators.map f)
    (hstep : ∀ a ∈ p.aggregators, (f a).DrawsOn given) : q.DrawsOn given := by
  intro a ha
  rw [hmap] at ha
  obtain ⟨b, hb, rfl⟩ := List.mem_map.mp ha
  exact hstep b hb

theorem mono (h : p.DrawsOn given) (hsub : given.Sublist given') : p.DrawsOn given' :=
  fun a ha => (h a ha).mono hsub

theorem offered (h : p.DrawsOn given) (hregular : p.Regular spec) (s : Sample)
    (counts : TopicCounts) : (p.offered s counts).DrawsOn (given ++ [s]) :=
  of_map _ rfl fun a ha => (h a ha).add (hregular.windows ha)

theorem advance (h : p.DrawsOn given) (w : Millis) : (p.advance w).1.DrawsOn given :=
  p.advance_cases (motive := fun q => q.1.DrawsOn given) w (fun _ => h) fun _ =>
    of_map _ rfl fun a ha => (h a ha).closeThrough w

theorem restore (h : p.DrawsOn given) (s : Snapshot) : (p.restore s).DrawsOn given := by
  unfold Pipeline.restore
  cases s.watermark with
  | none => exact h
  | some w =>
    refine of_map (fun a => (a.closeThrough w).1) ?_ fun a ha => (h a ha).closeThrough w
    simp [restoreWatermark, Pipeline.closeThrough]

/-- An event that a watermark publishes reports what the rule of its close made of the samples in
the window. -/
theorem reporting_advance (h : p.DrawsOn given) (hregular : p.Regular spec) (w : Millis) :
    Reporting (p.advance w).2.events spec.ladder given := by
  intro e he
  obtain ⟨-, c, hc, state, kind, aggregate, hmem, rfl⟩ := exists_of_mem_advance he
  rw [verdict, hregular.spec_eq] at hmem
  obtain ⟨haggregate, hband⟩ := Standing.of_mem_judgeAll hmem rfl
  obtain ⟨a, ha, hca⟩ := mem_due.mp hc
  obtain ⟨s, window, hfind, rfl⟩ := Aggregator.exists_of_mem_closeThrough hca
  obtain ⟨hdrawn, hwithin⟩ := h a ha s window hfind
  obtain ⟨i, hi⟩ := List.getElem?_of_mem ha
  obtain ⟨hrule, hindex, -⟩ := hregular.place hi
  rw [Ladder.bandAt, haggregate, Aggregator.closeOf, hindex, hrule] at hband
  exact ⟨a.rule, window.samples, hregular.rule_mem ha, hdrawn, hwithin, aggregate, haggregate, rfl,
    hband⟩

theorem follow (h : p.DrawsOn given) (hregular : p.Regular spec) (t : Millis) :
    (p.follow t).1.DrawsOn given ∧ Reporting (p.follow t).2.events spec.ladder given := by
  have hseen : ({ p with latestSeen := some (p.latestWith t) } : Pipeline).DrawsOn given := h
  have hregular' : ({ p with latestSeen := some (p.latestWith t) } : Pipeline).Regular spec :=
    hregular.congr rfl rfl
  exact p.follow_cases (motive := fun q => q.1.DrawsOn given ∧
    Reporting q.2.events spec.ladder given) t ⟨h, Reporting.nothing⟩ fun w =>
      ⟨hseen.advance w, hseen.reporting_advance hregular' w⟩

/-- After a call the windows draw on the samples before it and on its own, and so do the events. -/
theorem apply (h : p.DrawsOn given) (hregular : p.Regular spec) (call : Call) :
    (p.apply call).1.DrawsOn (given ++ call.sample?.toList) ∧
      Reporting (p.apply call).2.2.events spec.ladder (given ++ call.sample?.toList) := by
  have hkeep : given.Sublist (given ++ call.sample?.toList) := List.sublist_append_left _ _
  cases call with
  | ingest s =>
    exact p.ingest_cases (motive := fun q => q.1.DrawsOn (given ++ [s]) ∧
      Reporting q.2.2.events spec.ladder (given ++ [s])) s
      (fun _ => ⟨h.mono hkeep, Reporting.nothing⟩)
      (fun _ _ => ⟨h.mono hkeep, Reporting.nothing⟩) fun _ _ =>
        (h.offered hregular s _).follow (hregular.offered s _) s.time
  | advance w =>
    exact ⟨(h.advance w).mono hkeep, (h.reporting_advance hregular w).mono hkeep⟩
  | subscribe id sink | unsubscribe id => exact ⟨h.mono hkeep, Reporting.nothing⟩
  | load text =>
    simp only [Pipeline.apply, Pipeline.load]
    cases Snapshot.load text with
    | error failure => exact ⟨h.mono hkeep, Reporting.nothing⟩
    | ok s => exact ⟨(h.restore s).mono hkeep, Reporting.nothing⟩
  | shutDown =>
    exact ⟨of_map Aggregator.clear rfl fun _ _ => Aggregator.DrawsOn.clear, Reporting.nothing⟩

/-- The events of a history report what rules made of its samples. -/
theorem reporting_run (h : p.DrawsOn given) (hregular : p.Regular spec) (calls : List Call) :
    Reporting (effects (p.run calls).2).events spec.ladder
      (given ++ calls.filterMap Call.sample?) := by
  induction calls generalizing p given with
  | nil => exact Reporting.nothing
  | cons call calls ih =>
    obtain ⟨hdraws, hreporting⟩ := h.apply hregular call
    have hrest := ih hdraws (hregular.apply call)
    have hgiven : given ++ (call :: calls).filterMap Call.sample? =
        given ++ call.sample?.toList ++ calls.filterMap Call.sample? := by
      rw [List.append_assoc, List.filterMap_cons]
      cases call.sample? <;> rfl
    intro e he
    rw [hgiven]
    rcases List.mem_append.mp he with he | he
    · exact hreporting.mono (List.sublist_append_left _ _) e he
    · exact hrest e he

end DrawsOn

/-- The values of messages are numbers, unless sums overflow. On every history of a new topic, each
event reports what a rule of the ladder made of samples that were given in this order and lie in the
window of the event; its message is read back as a document with a time, a device, a point and a
value; and for a window of fewer samples than a 64-bit number counts, the value is a number, except
that it is `null` exactly where the rule is a sum or a mean and the sum of finite samples is not
finite. -/
theorem message_values_are_numbers_or_overflows (name : String) (endpoint : Endpoint)
    (spec : TopicSpec) (settings : Settings) (calls : List Call) :
    ∀ e ∈ (effects ((new name endpoint spec settings).run calls).2).events,
      Json.parse? (Message.ofEvent e).encode = some (e.document (.ofFloat e.value)) ∧
        ∃ rule samples,
          e.Reports rule samples spec.ladder (calls.filterMap Call.sample?) ∧
            (samples.length < 2 ^ 64 →
              (¬ Aggregate.Overflows rule samples ∧ ∃ n, Json.ofFloat e.value = .number n) ∨
                (Aggregate.Overflows rule samples ∧ Json.ofFloat e.value = .null)) := by
  intro e he
  have hnew : (new name endpoint spec settings).DrawsOn [] :=
    drawsOn_new name endpoint spec settings
  have hregular := regular_new name endpoint spec settings
  obtain ⟨rule, samples, hreports⟩ := hnew.reporting_run hregular calls e he
  rw [List.nil_append] at hreports
  exact ⟨Message.parse?_encode e, rule, samples, hreports, hreports.ofFloat_value⟩

/-- Two rules that add up the samples of the same windows; the second band has no upper bound. -/
def addedUp : Ladder where
  rules :=
    [⟨1, some 0.0, some 10.0, .lowerIncluded, 1000, 1000, .sum, none⟩,
      ⟨2, some 10.0, none, .lowerIncluded, 1000, 1000, .sum, none⟩]
  sound := by decide +kernel

/-- A window of two numbers near the end of the range, and a window of a small one. -/
def overflowing : List Call :=
  [.ingest ⟨100, .number 1e308⟩, .ingest ⟨200, .number 1e308⟩, .advance 1000,
    .ingest ⟨1500, .integer 5⟩, .advance 2000]

/-- The first window comes to a state though its sum is infinite. -/
theorem events_overflowing :
    let spec : TopicSpec := ⟨"boiler", "pressure", none, none, addedUp, rfl⟩
    let fresh := new "t" ⟨none, none, "boiler", "pressure"⟩ spec .standard
    let events := (effects (fresh.run overflowing).2).events
    events.map (fun e => (e.state, Decimal.isFinite e.value)) = [(2, false), (1, true)] := by
  intro spec fresh events
  have hevents : events = _ := events_run_cons fresh _ _
  rw [hevents, events_ingest_advance _ (by decide +kernel) (by decide +kernel),
    events_ingest_advance [] (by decide +kernel) (by decide +kernel)]
  decide +kernel

/-- Samples that are finite one by one are published as a message without a number. -/
theorem overflow_is_published_as_null :
    let spec : TopicSpec := ⟨"boiler", "pressure", none, none, addedUp, rfl⟩
    let fresh := new "t" ⟨none, none, "boiler", "pressure"⟩ spec .standard
    (∀ s ∈ overflowing.filterMap Call.sample?, s.value.toFloat?.isSome = true) ∧
      ¬ ∀ e ∈ (effects (fresh.run overflowing).2).events,
        ∃ n, Json.parse? (Message.ofEvent e).encode = some (e.document (.number n)) := by
  intro spec fresh
  refine ⟨by decide +kernel, fun hall => ?_⟩
  obtain ⟨e, rest, hevents, he, -⟩ := List.map_eq_cons_iff.mp events_overflowing
  obtain ⟨-, hinfinite⟩ := Prod.mk.inj he
  obtain ⟨n, hn⟩ := hall e (by rw [hevents]; exact List.mem_cons_self)
  rw [Message.parse?_encode, Json.ofFloat_eq_null.mpr hinfinite, Option.some.injEq,
    Event.document_inj] at hn
  cases hn

/-- The message of an overflowing window holds `null`, and that of the next window a number. -/
theorem message_values_are_numbers_or_overflows_added :
    let spec : TopicSpec := ⟨"boiler", "pressure", none, none, addedUp, rfl⟩
    let fresh := new "t" ⟨none, none, "boiler", "pressure"⟩ spec .standard
    ∃ d e, (effects (fresh.run overflowing).2).events = [d, e] ∧
      Json.parse? (Message.ofEvent d).encode = some (d.document .null) ∧
      (∃ rule samples,
        d.Reports rule samples addedUp (overflowing.filterMap Call.sample?) ∧
          Aggregate.Overflows rule samples) ∧
      ∃ n rule samples,
        Json.parse? (Message.ofEvent e).encode = some (e.document (.number n)) ∧
          e.Reports rule samples addedUp (overflowing.filterMap Call.sample?) ∧
          ¬ Aggregate.Overflows rule samples := by
  intro spec fresh
  have hall := message_values_are_numbers_or_overflows "t" ⟨none, none, "boiler", "pressure"⟩
    spec .standard overflowing
  obtain ⟨d, rest, hevents, hd, hrest⟩ := List.map_eq_cons_iff.mp events_overflowing
  obtain ⟨e, rfl, he⟩ := List.map_eq_singleton_iff.mp hrest
  rw [hevents] at hall
  obtain ⟨hreads, rule, samples, hreports, hcases⟩ := hall d (by simp)
  obtain ⟨hreads', rule', samples', hreports', hcases'⟩ := hall e (by simp)
  have hfew : (overflowing.filterMap Call.sample?).length < 2 ^ 64 := by decide
  have hnull := Json.ofFloat_eq_null.mpr (Prod.mk.inj hd).2
  have hnumber : Json.ofFloat e.value ≠ .null := by
    rw [Ne, Json.ofFloat_eq_null, (Prod.mk.inj he).2]
    exact Bool.noConfusion
  obtain ⟨hover, -⟩ := (hcases (hreports.length_le.trans_lt hfew)).resolve_left (by
    rintro ⟨-, n, hn⟩
    rw [hnull] at hn
    cases hn)
  obtain ⟨hfits, n, hn⟩ := (hcases' (hreports'.length_le.trans_lt hfew)).resolve_right
    fun h => hnumber h.2
  rw [hnull] at hreads
  rw [hn] at hreads'
  exact ⟨d, e, hevents, hreads, ⟨rule, samples, hreports, hover⟩, n, rule', samples', hreads',
    hreports', hfits⟩

end Pipeline

end TelemetryBands
