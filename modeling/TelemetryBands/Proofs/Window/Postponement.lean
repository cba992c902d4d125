import TelemetryBands.Proofs.Collections.Entries
import TelemetryBands.Window.Aggregator

/-!
# Later arrival numbers

Arrival numbers matter only in comparison with each other. An aggregator whose arrival numbers are
all greater by the same amount, and which has counted other figures, answers every call in the same
way, so numbering may start anew without a trace.
-/

namespace TelemetryBands

namespace WindowSample

/-- A sample with a later arrival number. -/
def postpone (d : Nat) (s : WindowSample) : WindowSample :=
  { s with arrival := s.arrival + d }

@[simp] theorem precedes_postpone (d : Nat) (a b : WindowSample) :
    (a.postpone d).precedes (b.postpone d) = a.precedes b := by
  have harrival : decide (a.arrival + d ≤ b.arrival + d) = decide (a.arrival ≤ b.arrival) :=
    decide_eq_decide.mpr (by omega)
  show (decide (a.time < b.time) ||
    (a.time == b.time && decide (a.arrival + d ≤ b.arrival + d))) = a.precedes b
  rw [harrival]
  rfl

theorem latestOf_postpone (d : Nat) (best : Option WindowSample) (s : WindowSample) :
    latestOf (best.map (postpone d)) (s.postpone d) = (latestOf best s).map (postpone d) := by
  cases best with
  | none => rfl
  | some b =>
    simp only [Option.map_some, latestOf, precedes_postpone]
    split <;> rfl

/-- The latest sample stays the latest one. -/
theorem latest?_postpone (d : Nat) (samples : List WindowSample) :
    latest? (samples.map (postpone d)) = (latest? samples).map (postpone d) := by
  have hfold : ∀ best : Option WindowSample,
      (samples.map (postpone d)).foldl latestOf (best.map (postpone d)) =
        (samples.foldl latestOf best).map (postpone d) := by
    induction samples with
    | nil => exact fun _ => rfl
    | cons s samples ih =>
      intro best
      rw [List.map_cons, List.foldl_cons, latestOf_postpone, ih, List.foldl_cons]
  exact hfold none

theorem numbers_postpone (d : Nat) (samples : List WindowSample) :
    numbers (samples.map (postpone d)) = numbers samples := by
  rw [numbers, List.mapM_map]
  rfl

end WindowSample

/-- What the samples of a window come to does not depend on where the arrival numbers begin. -/
theorem Aggregate.ofSamples_postpone (r : Rule) (d : Nat) (samples : List WindowSample) :
    ofSamples r (samples.map (WindowSample.postpone d)) = ofSamples r samples := by
  simp only [ofSamples, WindowSample.latest?_postpone, WindowSample.numbers_postpone,
    List.length_map]
  cases WindowSample.latest? samples <;> rfl

/-- A window with later arrival numbers. -/
def OpenWindow.postpone (d : Nat) (window : OpenWindow) : OpenWindow :=
  { window with samples := window.samples.map (WindowSample.postpone d) }

namespace Aggregator

/-- An aggregator with later arrival numbers and other counts. -/
def postpone (d : Nat) (counts : WindowCounts) (a : Aggregator) : Aggregator :=
  { a with
    openWindows := a.openWindows.mapValues (OpenWindow.postpone d)
    nextArrival := a.nextArrival + d
    counts := counts }

section Calls

variable (d : Nat) (counts : WindowCounts) (a : Aggregator)

@[simp] theorem hasReached_postpone (t : Millis) :
    (a.postpone d counts).hasReached t = a.hasReached t := rfl

@[simp] theorem judge_postpone (span : Span) : (a.postpone d counts).judge span = a.judge span := by
  simp [judge, postpone, hasReached]

theorem place_postpone (sample : WindowSample) (span : Span) :
    (a.postpone d counts).place (sample.postpone d) span =
      (a.place sample span).postpone d counts := by
  have hwindow : ((a.openWindows.find? span.start).map (OpenWindow.postpone d)).getD ⟨span, []⟩ =
      ((a.openWindows.find? span.start).getD ⟨span, []⟩).postpone d := by
    cases a.openWindows.find? span.start <;> rfl
  simp only [place, postpone, OrderedMap.mapValues_insert, OrderedMap.find?_mapValues, hwindow]
  simp [OpenWindow.postpone]

theorem offer_postpone (sample : WindowSample) (admission : Admission) (span : Span) :
    offer (sample.postpone d) (a.postpone d counts, admission) span =
      ((offer sample (a, admission) span).1.postpone d counts,
        (offer sample (a, admission) span).2) := by
  simp only [offer, judge_postpone]
  cases a.judge span with
  | accepted => simp only [place_postpone]
  | late => rfl
  | overflowed => rfl

theorem foldl_offer_postpone (sample : WindowSample) (spans : List Span) (admission : Admission) :
    spans.foldl (offer (sample.postpone d)) (a.postpone d counts, admission) =
      ((spans.foldl (offer sample) (a, admission)).1.postpone d counts,
        (spans.foldl (offer sample) (a, admission)).2) := by
  induction spans generalizing a admission with
  | nil => rfl
  | cons span spans ih => rw [List.foldl_cons, offer_postpone, ih, List.foldl_cons]

/-- A sample is admitted alike. -/
theorem add_postpone (t : Millis) (value : SampleValue) :
    (a.postpone d counts).add t value =
      ((a.add t value).1.postpone d (counts.add (a.add t value).2), (a.add t value).2) := by
  have hnext :
      ({ a.postpone d counts with nextArrival := (a.postpone d counts).nextArrival + 1 } :
        Aggregator) =
          ({ a with nextArrival := a.nextArrival + 1 } : Aggregator).postpone d counts := by
    simp only [postpone, Aggregator.mk.injEq, true_and, and_true]
    omega
  have hfold := foldl_offer_postpone d counts { a with nextArrival := a.nextArrival + 1 }
    ⟨t, a.nextArrival, value⟩ (a.grid.windowsContaining t) ⟨0, 0, 0⟩
  have hsample : (⟨t, a.nextArrival, value⟩ : WindowSample).postpone d =
      ⟨t, (a.postpone d counts).nextArrival, value⟩ := rfl
  rw [hsample] at hfold
  simp only [add]
  rw [hnext]
  have hgrid : (a.postpone d counts).grid = a.grid := rfl
  rw [hgrid, hfold]
  rfl

theorem closeOf_postpone (window : OpenWindow) :
    (a.postpone d counts).closeOf (window.postpone d) = a.closeOf window := by
  simp [closeOf, postpone, OpenWindow.postpone, Aggregate.ofSamples_postpone]

/-- A watermark closes the same windows. -/
theorem closeThrough_postpone (w : Millis) :
    ∃ counts', (a.postpone d counts).closeThrough w =
      ((a.closeThrough w).1.postpone d counts', (a.closeThrough w).2) := by
  unfold closeThrough
  rw [hasReached_postpone]
  split
  · exact ⟨counts, rfl⟩
  · have hkey : (a.postpone d counts).firstOpenStart w = a.firstOpenStart w := rfl
    have hwindows : (a.postpone d counts).openWindows =
        a.openWindows.mapValues (OpenWindow.postpone d) := rfl
    have hclose : (a.postpone d counts).closeOf ∘ OpenWindow.postpone d = a.closeOf :=
      funext (closeOf_postpone d counts a)
    refine ⟨{ counts with
      windowsClosed := counts.windowsClosed +
        (a.openWindows.filterKeys fun s => decide (s < a.firstOpenStart w)).values.length }, ?_⟩
    simp only [hkey, hwindows, ← OrderedMap.mapValues_filterKeys, OrderedMap.values_mapValues,
      List.map_map, List.length_map, hclose]
    rfl

end Calls

/-- An aggregator mirrors another one if they differ in nothing but where the arrival numbers begin
and what was counted. -/
def Mirrors (a b : Aggregator) : Prop :=
  ∃ d counts, b = a.postpone d counts

namespace Mirrors

variable {a b : Aggregator}

theorem rule_eq (h : a.Mirrors b) : a.rule = b.rule := by
  obtain ⟨d, counts, rfl⟩ := h
  rfl

/-- Mirrored aggregators take a sample alike and mirror each other afterwards. -/
theorem add (h : a.Mirrors b) (t : Millis) (value : SampleValue) :
    (a.add t value).1.Mirrors (b.add t value).1 ∧ (a.add t value).2 = (b.add t value).2 := by
  obtain ⟨d, counts, rfl⟩ := h
  rw [add_postpone]
  exact ⟨⟨d, _, rfl⟩, rfl⟩

/-- Mirrored aggregators close the same windows and mirror each other afterwards. -/
theorem closeThrough (h : a.Mirrors b) (w : Millis) :
    (a.closeThrough w).1.Mirrors (b.closeThrough w).1 ∧
      (a.closeThrough w).2 = (b.closeThrough w).2 := by
  obtain ⟨d, counts, rfl⟩ := h
  obtain ⟨counts', hclose⟩ := a.closeThrough_postpone d counts w
  rw [hclose]
  exact ⟨⟨d, counts', rfl⟩, rfl⟩

end Mirrors

end Aggregator

end TelemetryBands
