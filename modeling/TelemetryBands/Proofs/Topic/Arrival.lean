import TelemetryBands.Proofs.Topic.Settlement

/-!
# Samples out of order

A topic whose samples move its watermark stays behind the latest of them by the allowed lateness. As
long as no sample comes later than that, no window is reached before it has all its samples, so that
two orders of arrival settle the same closes, although in other batches.
-/

namespace TelemetryBands

/-- The samples of a list whose time counts. -/
def TopicSpec.counted (spec : TopicSpec) (xs : List Sample) : List Sample :=
  xs.filter fun s => spec.inRange s.time

/-- Samples with their places in the order of arrival. -/
def numbered (xs : List Sample) : List WindowSample :=
  xs.mapIdx fun i s => ⟨s.time, i, s.value⟩

/-- The samples of a list that lie in a window, in the order of their arrival. -/
def TopicSpec.ownedOf (spec : TopicSpec) (xs : List Sample) (g : WindowGrid) (span : Span) :
    List WindowSample :=
  (numbered (spec.counted xs)).filter fun s => span.contains s.time && decide (g.Reaches s.time)

/-- No sample comes later than allowed: none is older than a sample before it, those whose time does
not count left aside, by more than the allowed lateness. -/
def TopicSpec.Punctual (spec : TopicSpec) (lateness : Millis) (xs : List Sample) : Prop :=
  xs.Pairwise fun r s => spec.inRange r.time = true → r.time.satSub lateness ≤ s.time

instance (spec : TopicSpec) (lateness : Millis) (xs : List Sample) :
    Decidable (spec.Punctual lateness xs) :=
  inferInstanceAs (Decidable (xs.Pairwise _))

/-- The greatest of a list of instants, if there are any. -/
structure IsLatest (seen : Option Millis) (times : List Millis) : Prop where
  le : ∀ t ∈ times, ∃ m, seen = some m ∧ t ≤ m
  mem : ∀ m, seen = some m → m ∈ times

theorem IsLatest.unique {seen seen' : Option Millis} {times times' : List Millis}
    (h : IsLatest seen times) (h' : IsLatest seen' times')
    (hmem : ∀ t, t ∈ times ↔ t ∈ times') : seen = seen' := by
  apply Option.ext
  have hside : ∀ {seen seen' : Option Millis} {times times' : List Millis},
      IsLatest seen times → IsLatest seen' times' → (∀ t, t ∈ times ↔ t ∈ times') →
        ∀ m, seen = some m → seen' = some m := by
    intro seen seen' times times' h h' hmem m hm
    obtain ⟨n, hn, hmn⟩ := h'.le m ((hmem m).mp (h.mem m hm))
    obtain ⟨k, hk, hnk⟩ := h.le n ((hmem n).mpr (h'.mem n hn))
    rw [hm] at hk
    obtain rfl := Option.some.inj hk
    rw [hn, Millis.le_antisymm hnk hmn]
  intro m
  exact ⟨hside h h' hmem m, hside h' h (fun t => (hmem t).symm) m⟩

/-- The greatest of a list of instants after one more. -/
theorem IsLatest.later {seen : Option Millis} {times : List Millis} (h : IsLatest seen times)
    (t : Millis) :
    IsLatest (some ((seen.map fun v => v.later t).getD t)) (times ++ [t]) where
  le := by
    intro u hu
    refine ⟨_, rfl, ?_⟩
    cases hseen : seen with
    | none =>
      rcases List.mem_append.mp hu with hu | hu
      · obtain ⟨m, hm, -⟩ := h.le u hu
        rw [hseen] at hm
        cases hm
      · rw [List.mem_singleton.mp hu]
        exact Int.le_refl _
    | some v =>
      rw [Option.map_some, Option.getD_some, Millis.le_def, Millis.later_val]
      rcases List.mem_append.mp hu with hu | hu
      · obtain ⟨m, hm, hle⟩ := h.le u hu
        rw [hseen] at hm
        obtain rfl := Option.some.inj hm
        rw [Millis.le_def] at hle
        omega
      · rw [List.mem_singleton.mp hu]
        omega
  mem := by
    intro m hm
    obtain rfl := Option.some.inj hm
    cases hseen : seen with
    | none => simp
    | some v =>
      rw [Option.map_some, Option.getD_some, Millis.later]
      split
      · simp
      · exact List.mem_append_left _ (h.mem v hseen)

theorem map_sample_numbered (xs : List Sample) :
    (numbered xs).map WindowSample.sample = xs := by
  apply List.ext_getElem?
  intro i
  rw [List.getElem?_map, numbered, List.getElem?_mapIdx, Option.map_map]
  cases xs[i]? <;> rfl

/-- What a window owns is known up to arrival numbers by a test on the samples. -/
theorem TopicSpec.map_sample_ownedOf (spec : TopicSpec) (xs : List Sample) (g : WindowGrid)
    (span : Span) :
    (spec.ownedOf xs g span).map WindowSample.sample =
      (spec.counted xs).filter fun s => span.contains s.time && decide (g.Reaches s.time) := by
  have h := List.filter_map (f := WindowSample.sample)
    (p := fun s : Sample => span.contains s.time && decide (g.Reaches s.time))
    (l := numbered (spec.counted xs))
  rw [map_sample_numbered] at h
  exact h.symm

/-- Two orders of the same samples, no two of one time, give every window alike samples. -/
theorem TopicSpec.alike_of_perm (spec : TopicSpec) {xs ys : List Sample} (hperm : xs.Perm ys)
    (hnodup : (xs.map Sample.time).Nodup) {rule : Rule} (hrule : rule.aggregation.Unordered)
    (g : WindowGrid) (span : Span) :
    Aggregate.Alike rule (spec.ownedOf xs g span) (spec.ownedOf ys g span) := by
  have hsamples : ((spec.ownedOf xs g span).map WindowSample.sample).Perm
      ((spec.ownedOf ys g span).map WindowSample.sample) := by
    rw [map_sample_ownedOf, map_sample_ownedOf]
    exact (hperm.filter _).filter _
  have htimes : (((spec.ownedOf xs g span).map WindowSample.sample).map Sample.time).Nodup := by
    rw [map_sample_ownedOf]
    have hsublist := (List.filter_sublist (p := fun s : Sample =>
      span.contains s.time && decide (g.Reaches s.time)) (l := spec.counted xs)).trans
        List.filter_sublist
    exact hnodup.sublist (hsublist.map _)
  refine ⟨?_, Aggregate.ofSamples_perm hrule hsamples htimes⟩
  simpa using hsamples.length_eq

theorem TopicSpec.counted_of_inRange (spec : TopicSpec) (xs : List Sample) {s : Sample}
    (hin : spec.inRange s.time = true) : spec.counted (xs ++ [s]) = spec.counted xs ++ [s] := by
  simp [counted, hin]

theorem TopicSpec.counted_of_outOfRange (spec : TopicSpec) (xs : List Sample) {s : Sample}
    (hin : spec.inRange s.time = false) : spec.counted (xs ++ [s]) = spec.counted xs := by
  simp [counted, hin]

namespace Pipeline

/-- On a list of samples, no rule finds a window without room. -/
def HasRoom (p : Pipeline) : List Sample → Prop
  | [] => True
  | s :: xs =>
    (p.spec.inRange s.time = true →
      ∀ a ∈ p.aggregators, (a.add s.time s.value).2.overflowed = 0) ∧ (p.ingest s).1.HasRoom xs

instance decidableHasRoom (p : Pipeline) : (xs : List Sample) → Decidable (p.HasRoom xs)
  | [] => isTrue trivial
  | s :: xs =>
    have := (p.ingest s).1.decidableHasRoom xs
    inferInstanceAs (Decidable (_ ∧ _))

theorem hasRoom_append {p : Pipeline} {xs : List Sample} {s : Sample} :
    p.HasRoom (xs ++ [s]) ↔
      p.HasRoom xs ∧ ((p.run (xs.map .ingest)).1.spec.inRange s.time = true →
        ∀ a ∈ (p.run (xs.map .ingest)).1.aggregators, (a.add s.time s.value).2.overflowed = 0) := by
  induction xs generalizing p with
  | nil => simp [HasRoom, run]
  | cons r xs ih =>
    rw [List.cons_append, HasRoom, HasRoom, ih, and_assoc]
    rfl

/-- A topic that began as `p₀` has taken in samples, settled closes and published events. -/
structure Takes (p₀ p : Pipeline) (lateness : Millis) (xs : List Sample)
    (settled : List WindowClose) (published : List Event) : Prop where
  settles : Settles p₀ p (p₀.spec.ownedOf xs) settled published
  policy_eq : p.policy = .eventTime lateness
  latest : IsLatest p.latestSeen ((p₀.spec.counted xs).map Sample.time)
  watermark_eq : p.watermark = p.latestSeen.map fun t => t.satSub lateness
  nextArrival_eq : ∀ a ∈ p.aggregators, a.nextArrival = (p₀.spec.counted xs).length

variable {p₀ p : Pipeline} {lateness : Millis} {xs : List Sample} {settled : List WindowClose}
  {published : List Event} {s : Sample}

namespace Takes

/-- The windows of a punctual sample are open. -/
theorem hasReached_stop (h : Takes p₀ p lateness xs settled published)
    (hpunctual : ∀ r ∈ xs, p₀.spec.inRange r.time = true → r.time.satSub lateness ≤ s.time)
    {a : Aggregator} (ha : a ∈ p.aggregators) {span : Span}
    (hcontains : span.contains s.time = true) : a.hasReached span.stop = false := by
  refine Bool.eq_false_iff.mpr fun hreached => ?_
  obtain ⟨w, hw, hle⟩ := Aggregator.hasReached_iff.mp hreached
  rw [h.settles.closedThrough_eq ha, h.watermark_eq, Option.map_eq_some_iff] at hw
  obtain ⟨m, hm, rfl⟩ := hw
  obtain ⟨r, hr, rfl⟩ := List.mem_map.mp (h.latest.mem m hm)
  obtain ⟨hmem, hin⟩ := List.mem_filter.mp hr
  have hbound := hpunctual r hmem hin
  simp only [Span.contains, Bool.and_eq_true, decide_eq_true_eq, Millis.le_def,
    Millis.lt_def] at hcontains hbound
  omega

/-- What a window owns after a punctual sample is what it owned, and the receipt of the sample. -/
theorem ownedOf_append (h : Takes p₀ p lateness xs settled published)
    (hin : p₀.spec.inRange s.time = true)
    (hpunctual : ∀ r ∈ xs, p₀.spec.inRange r.time = true → r.time.satSub lateness ≤ s.time)
    {a : Aggregator} (ha : a ∈ p.aggregators) (span : Span) :
    p₀.spec.ownedOf (xs ++ [s]) a.grid span =
      p₀.spec.ownedOf xs a.grid span ++ a.receipt s.time s.value span := by
  rw [TopicSpec.ownedOf, TopicSpec.counted_of_inRange _ _ hin, numbered, List.mapIdx_concat,
    List.filter_append, TopicSpec.ownedOf, numbered, ← h.nextArrival_eq a ha,
    Aggregator.receipt]
  congr 1
  by_cases howns : span.contains s.time = true ∧ a.grid.Reaches s.time
  · have hopen := h.hasReached_stop hpunctual ha howns.1
    rw [if_pos ⟨howns.1, howns.2, hopen⟩]
    simp [howns]
  · rw [if_neg fun htaken => howns ⟨htaken.1, htaken.2.1⟩]
    simpa using howns

/-- A punctual sample is late for no rule. -/
theorem disposition_ne_late (h : Takes p₀ p lateness xs settled published)
    (hpunctual : ∀ r ∈ xs, p₀.spec.inRange r.time = true → r.time.satSub lateness ≤ s.time) :
    dispositionOf (p.offer s).2 ≠ .late := by
  have hlate : ∀ outcome ∈ (p.offer s).2, outcome.2.isLate = false := by
    intro outcome hmem
    obtain ⟨a, ha, rfl⟩ := List.mem_map.mp hmem
    have hzero : (a.add s.time s.value).2.late = 0 := by
      rw [Aggregator.add_late, List.countP_eq_zero]
      intro span hspan
      have hproper := (h.settles.regular.windows ha).proper
      have hcontains := ((WindowGrid.mem_windowsContaining hproper).mp hspan).2.1
      rw [h.hasReached_stop hpunctual ha hcontains]
      exact Bool.false_ne_true
    simp [Admission.isLate, hzero]
  unfold dispositionOf
  split
  · exact nofun
  · rw [if_neg]
    · exact nofun
    · rw [List.any_eq_true]
      rintro ⟨outcome, hmem, hisLate⟩
      rw [hlate outcome hmem] at hisLate
      cases hisLate

/-- The watermark stays behind the latest sample. -/
theorem watermark_le (h : Takes p₀ p lateness xs settled published) (t : Millis) :
    ∀ u, p.watermark = some u →
      u ≤ (p.latestWith t).satSub lateness := by
  intro u hu
  rw [h.watermark_eq, Option.map_eq_some_iff] at hu
  obtain ⟨m, hm, rfl⟩ := hu
  apply Millis.satSub_mono
  rw [latestWith, hm, Option.map_some, Option.getD_some, Millis.le_def, Millis.later_val]
  omega

/-- A topic takes in a punctual sample that every rule has room for. -/
theorem ingest (h : Takes p₀ p lateness xs settled published)
    (hstart : p₀.spec.start ≠ some Millis.first) (hin : p₀.spec.inRange s.time = true)
    (hpunctual : ∀ r ∈ xs, p₀.spec.inRange r.time = true → r.time.satSub lateness ≤ s.time)
    (hroom : ∀ a ∈ p.aggregators, (a.add s.time s.value).2.overflowed = 0) :
    (p.ingest s).2.1 ≠ .late ∧
      ∃ settled', Takes p₀ (p.ingest s).1 lateness (xs ++ [s]) settled'
        (published ++ (p.ingest s).2.2.events) := by
  have hin' : p.spec.inRange s.time = true := by rwa [h.settles.regular.spec_eq]
  obtain ⟨counts, hingest⟩ := ingest_of_inRange h.settles.alive hin'
  rw [hingest]
  have hpolicy : (p.offered s counts).policy = .eventTime lateness := h.policy_eq
  rw [follow_of_eventTime hpolicy]
  have hsettles := h.settles.add hroom (fun a ha span => h.ownedOf_append hin hpunctual ha span)
    counts (some (p.latestWith s.time))
  refine ⟨h.disposition_ne_late hpunctual, _, hsettles.advance hstart _, ?_, ?_, ?_, ?_⟩
  · rw [policy_advance]
    exact h.policy_eq
  · rw [latestSeen_advance, TopicSpec.counted_of_inRange _ _ hin, List.map_append]
    exact h.latest.later s.time
  · rw [latestSeen_advance, Option.map_some]
    exact watermark_advance_of_le h.settles.alive (h.watermark_le s.time)
  · rw [TopicSpec.counted_of_inRange _ _ hin, List.length_append, List.length_singleton]
    apply nextArrival_advance
    intro a ha
    obtain ⟨b, hb, rfl⟩ := List.mem_map.mp ha
    rw [b.add_nextArrival, h.nextArrival_eq b hb]

/-- A sample whose time does not count changes nothing that matters. -/
theorem skip (h : Takes p₀ p lateness xs settled published)
    (hin : p₀.spec.inRange s.time = false) :
    (p.ingest s).2.1 ≠ .late ∧
      Takes p₀ (p.ingest s).1 lateness (xs ++ [s]) settled
        (published ++ (p.ingest s).2.2.events) := by
  have hin' : p.spec.inRange s.time = false := by rwa [h.settles.regular.spec_eq]
  have hcounted := p₀.spec.counted_of_outOfRange xs hin
  have howned : p₀.spec.ownedOf (xs ++ [s]) = p₀.spec.ownedOf xs := by
    funext g span
    rw [TopicSpec.ownedOf, TopicSpec.ownedOf, hcounted]
  rw [ingest_of_outOfRange h.settles.alive hin']
  refine ⟨nofun, ?_, h.policy_eq, ?_, h.watermark_eq, ?_⟩
  · rw [howned]
    simpa [Effect.none] using h.settles.congr
  · rw [hcounted]
    exact h.latest
  · rw [hcounted]
    exact h.nextArrival_eq

end Takes

/-- A new topic has taken in nothing. -/
theorem takes_new (name : String) (endpoint : Endpoint) (spec : TopicSpec) (settings : Settings)
    (hpolicy : settings.watermark = .eventTime lateness) :
    Takes (new name endpoint spec settings) (new name endpoint spec settings) lateness [] []
      [] := by
  have howned : spec.ownedOf [] = fun _ _ => [] := by
    funext g span
    simp [TopicSpec.ownedOf, TopicSpec.counted, numbered]
  have hcounted : (spec.counted []).map Sample.time = [] := rfl
  refine ⟨?_, hpolicy, ?_, rfl, ?_⟩
  · show Settles _ _ (spec.ownedOf []) [] []
    rw [howned]
    exact settles_new name endpoint spec settings
  · show IsLatest none ((spec.counted []).map Sample.time)
    rw [hcounted]
    constructor
    · intro t ht
      cases ht
    · intro m hm
      cases hm
  · intro a ha
    obtain ⟨i, hi, rfl⟩ := List.mem_mapIdx.mp ha
    rfl

/-- A new topic takes in punctual samples that every rule has room for, and calls none of them
late. -/
theorem run_takes (name : String) (endpoint : Endpoint) (spec : TopicSpec) (settings : Settings)
    (hstart : spec.start ≠ some Millis.first) (hpolicy : settings.watermark = .eventTime lateness)
    (hpunctual : spec.Punctual lateness xs)
    (hroom : (new name endpoint spec settings).HasRoom xs) :
    let p := new name endpoint spec settings
    (∀ reply ∈ (p.run (xs.map .ingest)).2, reply.1 ≠ .disposition .late) ∧
      ∃ settled, Takes p (p.run (xs.map .ingest)).1 lateness xs settled
        (effects (p.run (xs.map .ingest)).2).events := by
  intro p
  induction xs using List.reverseRecOn with
  | nil =>
    refine ⟨nofun, [], ?_⟩
    exact takes_new name endpoint spec settings hpolicy
  | append_singleton xs s ih =>
    obtain ⟨hbefore, -, hlast⟩ := List.pairwise_append.mp hpunctual
    obtain ⟨hfilled, hplaces⟩ := hasRoom_append.mp hroom
    obtain ⟨hreplies, settled, htakes⟩ := ih hbefore hfilled
    have hinTime := fun r hr => hlast r hr s List.mem_cons_self
    have hspec : (p.run (xs.map .ingest)).1.spec = spec := htakes.settles.regular.spec_eq
    rw [hspec] at hplaces
    rw [List.map_append, run_append]
    have hstep : ((p.run (xs.map .ingest)).1.ingest s).2.1 ≠ .late ∧
        ∃ settled', Takes p ((p.run (xs.map .ingest)).1.ingest s).1 lateness (xs ++ [s]) settled'
          ((effects (p.run (xs.map .ingest)).2).events ++
            ((p.run (xs.map .ingest)).1.ingest s).2.2.events) := by
      cases hin : spec.inRange s.time with
      | true => exact htakes.ingest hstart hin hinTime (hplaces hin)
      | false => exact ⟨(htakes.skip hin).1, settled, (htakes.skip hin).2⟩
    obtain ⟨hlate, settled', htakes'⟩ := hstep
    constructor
    · intro reply hreply
      rcases List.mem_append.mp hreply with hreply | hreply
      · exact hreplies reply hreply
      · rw [List.mem_singleton.mp hreply]
        exact fun heq => hlate (Reply.disposition.inj heq)
    · refine ⟨settled', ?_⟩
      rw [effects_append]
      simpa [effects, run, apply, Effect.andThen] using htakes'

/-- Out-of-order arrival within the allowed lateness does not change what is published. Two orders
of the same samples, no two of one time, are given to a new topic whose windows do not start at the
first instant of the clock, whose rules do not aggregate by the order of arrival and whose samples
move its watermark. If no sample comes later than allowed and every rule has room, then no sample is
called late, and after the last sample, and after any common watermark behind it, the band and the
records of publications are the same, and so are the published events up to their timestamps. -/
theorem arrival_order_is_irrelevant (name : String) (endpoint : Endpoint) (spec : TopicSpec)
    (settings : Settings) {lateness : Millis} {xs ys : List Sample}
    (hstart : spec.start ≠ some Millis.first)
    (hrules : ∀ rule ∈ spec.ladder.rules, rule.aggregation.Unordered)
    (hpolicy : settings.watermark = .eventTime lateness) (hperm : xs.Perm ys)
    (hnodup : (xs.map Sample.time).Nodup) (hpunctual : spec.Punctual lateness xs)
    (hpunctual' : spec.Punctual lateness ys)
    (hroom : (new name endpoint spec settings).HasRoom xs)
    (hroom' : (new name endpoint spec settings).HasRoom ys) :
    let p := new name endpoint spec settings
    let one := p.run (xs.map .ingest)
    let other := p.run (ys.map .ingest)
    (∀ reply ∈ one.2, reply.1 ≠ .disposition .late) ∧
      (∀ reply ∈ other.2, reply.1 ≠ .disposition .late) ∧
      one.1.detector = other.1.detector ∧ one.1.suppressor = other.1.suppressor ∧
      (effects one.2).events.map Event.undated = (effects other.2).events.map Event.undated ∧
      ∀ w, (one.1.advance w).1.detector = (other.1.advance w).1.detector ∧
        (one.1.advance w).1.suppressor = (other.1.advance w).1.suppressor ∧
        ((effects one.2).events ++ (one.1.advance w).2.events).map Event.undated =
          ((effects other.2).events ++ (other.1.advance w).2.events).map Event.undated := by
  intro p one other
  obtain ⟨hreplies, settled, htakes⟩ :=
    run_takes name endpoint spec settings hstart hpolicy hpunctual hroom
  obtain ⟨hreplies', settled', htakes'⟩ :=
    run_takes name endpoint spec settings hstart hpolicy hpunctual' hroom'
  have halike : ∀ rule ∈ spec.ladder.rules, ∀ g span,
      Aggregate.Alike rule (spec.ownedOf xs g span) (spec.ownedOf ys g span) :=
    fun rule hrule g span => spec.alike_of_perm hperm hnodup (hrules rule hrule) g span
  have htimes : ∀ t, t ∈ (spec.counted xs).map Sample.time ↔
      t ∈ (spec.counted ys).map Sample.time :=
    fun t => ((hperm.filter _).map _).mem_iff
  have hwatermark : one.1.watermark = other.1.watermark := by
    rw [htakes.watermark_eq, htakes'.watermark_eq, htakes.latest.unique htakes'.latest htimes]
  obtain ⟨hstanding, hevents⟩ :=
    htakes.settles.standing_eq_of_alike htakes'.settles hwatermark halike
  refine ⟨hreplies, hreplies', congrArg Standing.detector hstanding,
    congrArg Standing.suppressor hstanding, hevents, ?_⟩
  intro w
  have hwatermark' : (one.1.advance w).1.watermark = (other.1.advance w).1.watermark := by
    rw [watermark_advance, watermark_advance, skips, skips, hasReached, hasReached,
      htakes.settles.alive, htakes'.settles.alive, hwatermark]
  obtain ⟨hstanding', hevents'⟩ := (htakes.settles.advance hstart w).standing_eq_of_alike
    (htakes'.settles.advance hstart w) hwatermark' halike
  exact ⟨congrArg Standing.detector hstanding', congrArg Standing.suppressor hstanding', hevents'⟩

/-- Three samples in two orders, all windows still open when the last one comes. -/
theorem arrival_order_is_irrelevant_swapped :
    let rule : Rule := ⟨1, some 0.0, none, .both, 3000, 1000, .last, none⟩
    let spec : TopicSpec := ⟨"boiler", "pressure", some 500, none, ⟨[rule], by decide⟩, rfl⟩
    let settings : Settings := { Settings.standard with watermark := .eventTime 5000 }
    let p := new "t" ⟨none, none, "boiler", "pressure"⟩ spec settings
    let xs : List Sample := [⟨700, .integer 7⟩, ⟨2600, .integer 9⟩, ⟨1900, .integer 8⟩]
    let ys : List Sample := [⟨1900, .integer 8⟩, ⟨2600, .integer 9⟩, ⟨700, .integer 7⟩]
    spec.start ≠ some Millis.first ∧ rule.aggregation.Unordered ∧ xs.Perm ys ∧
      (xs.map Sample.time).Nodup ∧ spec.Punctual 5000 xs ∧ spec.Punctual 5000 ys ∧
      p.HasRoom xs ∧ p.HasRoom ys ∧
      ((p.run (xs.map .ingest)).1.advance 9000).1.detector =
        ((p.run (ys.map .ingest)).1.advance 9000).1.detector := by
  intro rule spec settings p xs ys
  have hstart : spec.start ≠ some Millis.first := by decide
  have hrule : rule.aggregation.Unordered := Or.inl rfl
  have hrules : ∀ r ∈ spec.ladder.rules, r.aggregation.Unordered := by
    intro r hr
    rw [List.mem_singleton.mp hr]
    exact hrule
  have hperm : xs.Perm ys := by decide
  have hnodup : (xs.map Sample.time).Nodup := by decide
  have hpunctual : spec.Punctual 5000 xs := by decide
  have hpunctual' : spec.Punctual 5000 ys := by decide
  have hroom : p.HasRoom xs := by decide +kernel
  have hroom' : p.HasRoom ys := by decide +kernel
  have h := arrival_order_is_irrelevant "t" ⟨none, none, "boiler", "pressure"⟩ spec settings hstart
    hrules rfl hperm hnodup hpunctual hpunctual' hroom hroom'
  exact ⟨hstart, hrule, hperm, hnodup, hpunctual, hpunctual', hroom, hroom',
    (h.2.2.2.2.2 9000).1⟩

end Pipeline

end TelemetryBands
