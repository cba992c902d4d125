import TelemetryBands.Proofs.Window.Closing

/-!
# Rules that share their windows

Rules with windows of the same length at the same distances collect the same samples in the same
windows, each for itself. If they also aggregate in the same way, without regard to their own bands,
a window comes to the same for each of them.
-/

namespace TelemetryBands

/-- All rules of a ladder look at the same windows and make the same number of them. -/
structure Ladder.Uniform (l : Ladder) : Prop where
  size_eq : ∀ r ∈ l.rules, ∀ r' ∈ l.rules, r'.windowSize = r.windowSize
  offset_eq : ∀ r ∈ l.rules, ∀ r' ∈ l.rules, r'.windowOffset = r.windowOffset
  aggregation_eq : ∀ r ∈ l.rules, ∀ r' ∈ l.rules, r'.aggregation = r.aggregation
  numeric : ∀ r ∈ l.rules, ∀ threshold, r.aggregation ≠ .matching threshold

namespace Aggregate

variable {r r' : Rule}

/-- Apart from shares, an aggregate depends on the function alone. -/
theorem ofSamples_congr (h : r'.aggregation = r.aggregation)
    (hnumeric : ∀ threshold, r.aggregation ≠ .matching threshold) (samples : List WindowSample) :
    ofSamples r' samples = ofSamples r samples := by
  unfold ofSamples
  rw [h]
  cases haggregation : r.aggregation with
  | matching threshold => exact absurd haggregation (hnumeric threshold)
  | _ => rfl

/-- Apart from shares, an aggregate is a number to be looked up on the ladder. -/
theorem exists_value_of_ofSamples (hnumeric : ∀ threshold, r.aggregation ≠ .matching threshold)
    {samples : List WindowSample} {aggregate : Aggregate}
    (h : ofSamples r samples = .ok aggregate) : ∃ x, aggregate = .value x := by
  have hmap : ∀ {α : Type} {f : α → Float} {e : Except Failure α},
      e.map (fun a => Aggregate.value (f a)) = .ok aggregate → ∃ x, aggregate = .value x := by
    intro α f e he
    cases e with
    | error failure => cases he
    | ok a => exact ⟨f a, (Except.ok.inj he).symm⟩
  unfold ofSamples at h
  cases hlatest : WindowSample.latest? samples with
  | none =>
    rw [hlatest] at h
    cases h
  | some latest =>
    rw [hlatest] at h
    cases haggregation : r.aggregation with
    | matching threshold => exact absurd haggregation (hnumeric threshold)
    | count =>
      simp only [haggregation, Except.ok.injEq] at h
      exact ⟨_, h.symm⟩
    | last | avg | sum | min | max =>
      simp only [haggregation] at h
      exact hmap h

end Aggregate

namespace Aggregator

/-- Two aggregators hold the same samples in the same windows, and go on alike. -/
structure InStep (a b : Aggregator) : Prop where
  grid_eq : b.grid = a.grid
  maxOpen_eq : b.maxOpen = a.maxOpen
  open_eq : b.openWindows = a.openWindows
  closed_eq : b.closedThrough = a.closedThrough
  arrival_eq : b.nextArrival = a.nextArrival

namespace InStep

variable {a b : Aggregator}

theorem hasReached_eq (h : a.InStep b) (t : Millis) : b.hasReached t = a.hasReached t := by
  rw [hasReached, h.closed_eq, hasReached]

/-- A sample fares alike in a window of both. -/
theorem offer (h : a.InStep b) (sample : WindowSample) (admission : Admission) (span : Span) :
    (Aggregator.offer sample (a, admission) span).1.InStep
        (Aggregator.offer sample (b, admission) span).1 ∧
      (Aggregator.offer sample (b, admission) span).2 =
        (Aggregator.offer sample (a, admission) span).2 := by
  have hjudge : b.judge span = a.judge span := by
    rw [judge, h.hasReached_eq, h.maxOpen_eq, h.open_eq, judge]
  unfold Aggregator.offer
  simp only [hjudge]
  cases a.judge span with
  | accepted =>
    refine ⟨⟨h.grid_eq, h.maxOpen_eq, ?_, h.closed_eq, h.arrival_eq⟩, rfl⟩
    simp only [place, h.open_eq]
  | late => exact ⟨h, rfl⟩
  | overflowed => exact ⟨h, rfl⟩

theorem foldl_offer (h : a.InStep b) (sample : WindowSample) (spans : List Span)
    (admission : Admission) :
    (spans.foldl (Aggregator.offer sample) (a, admission)).1.InStep
      (spans.foldl (Aggregator.offer sample) (b, admission)).1 := by
  induction spans generalizing a b admission with
  | nil => exact h
  | cons span spans ih =>
    obtain ⟨hnext, hadmission⟩ := h.offer sample admission span
    rw [List.foldl_cons, List.foldl_cons,
      ← Prod.mk.eta (p := Aggregator.offer sample (b, admission) span), hadmission]
    exact ih hnext _

/-- Both stay in step when they are given the same sample. -/
theorem add (h : a.InStep b) (t : Millis) (value : SampleValue) :
    (a.add t value).1.InStep (b.add t value).1 := by
  have hstart : ({ a with nextArrival := a.nextArrival + 1 } : Aggregator).InStep
      { b with nextArrival := b.nextArrival + 1 } :=
    ⟨h.grid_eq, h.maxOpen_eq, h.open_eq, h.closed_eq, congrArg (· + 1) h.arrival_eq⟩
  have hopen := (hstart.foldl_offer ⟨t, b.nextArrival, value⟩ (b.grid.windowsContaining t)
    ⟨0, 0, 0⟩).open_eq
  refine ⟨?_, ?_, hopen.trans ?_, ?_, ?_⟩
  · rw [add_grid, add_grid, h.grid_eq]
  · rw [add_frame b, add_frame a]
    exact h.maxOpen_eq
  · rw [h.arrival_eq, h.grid_eq]
    rfl
  · rw [add_closedThrough, add_closedThrough, h.closed_eq]
  · rw [add_nextArrival, add_nextArrival, h.arrival_eq]

/-- Both stay in step when they are told the same watermark. -/
theorem closeThrough (h : a.InStep b) (w : Millis) :
    (a.closeThrough w).1.InStep (b.closeThrough w).1 := by
  have hreached := h.hasReached_eq w
  cases hnew : a.hasReached w with
  | true =>
    rw [closeThrough_of_reached hnew, closeThrough_of_reached (hreached.trans hnew)]
    exact h
  | false =>
    have hbound : b.firstOpenStart w = a.firstOpenStart w := by
      rw [firstOpenStart, h.grid_eq, firstOpenStart]
    rw [closeThrough_of_new hnew, closeThrough_of_new (hreached.trans hnew)]
    refine ⟨h.grid_eq, h.maxOpen_eq, ?_, rfl, h.arrival_eq⟩
    simp only [h.open_eq, hbound]

theorem clear (h : a.InStep b) : a.clear.InStep b.clear :=
  ⟨h.grid_eq, h.maxOpen_eq, rfl, h.closed_eq, h.arrival_eq⟩

end InStep

/-- What aggregators in step close up to one end is the same window, and comes to the same if their
rules aggregate alike. -/
theorem Regular.closes_alike {a b : Aggregator} {w : Millis} (ha : a.Regular) (hb : b.Regular)
    (h : a.InStep b) (haggregation : b.rule.aggregation = a.rule.aggregation)
    (hnumeric : ∀ threshold, a.rule.aggregation ≠ .matching threshold) {c d : WindowClose}
    (hc : c ∈ (a.closeThrough w).2) (hd : d ∈ (b.closeThrough w).2)
    (hstop : d.span.stop = c.span.stop) :
    d.span = c.span ∧ d.aggregate = c.aggregate ∧
      ∀ aggregate, c.aggregate = .ok aggregate → ∃ x, aggregate = .value x := by
  obtain ⟨-, s, window, hfind, hs, rfl⟩ := of_mem_closeThrough hc
  obtain ⟨-, s', window', hfind', hs', rfl⟩ := of_mem_closeThrough hd
  have hstart := ha.stop_eq_endOf hfind hs
  have hstart' := hb.stop_eq_endOf hfind' hs'
  rw [h.grid_eq] at hstart'
  have hspan : window'.span.stop = window.span.stop := hstop
  have hsame : s' = s := by
    apply Millis.ext
    rw [← (ha.window hfind).1, ← (hb.window hfind').1]
    simp only [WindowGrid.endOf] at hstart hstart'
    rw [hspan] at hstart'
    omega
  rw [h.open_eq, hsame, hfind] at hfind'
  obtain rfl := Option.some.inj hfind'
  refine ⟨rfl, Aggregate.ofSamples_congr haggregation hnumeric _, fun aggregate hok => ?_⟩
  exact Aggregate.exists_value_of_ofSamples hnumeric hok

end Aggregator

end TelemetryBands
