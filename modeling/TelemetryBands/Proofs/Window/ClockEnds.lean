import TelemetryBands.Proofs.Window.Contents

/-!
# Closing at the ends of the clock

A watermark is compared with the starts of the open windows, by a key that stops at the ends of the
clock, while the windows end at times that stop there as well. The two agree with a comparison of
ends everywhere but at the first and the last instant: a window that starts at the first instant is
closed by every new watermark, and a window whose end was cut off at the last instant is closed by
none.
-/

namespace TelemetryBands

/-- Keeping the keys whose values pass a test keeps these values in their order. -/
theorem OrderedMap.values_filterKeys {κ α : Type} [Ranked κ] {m : OrderedMap κ α} {p : κ → Bool}
    {q : α → Bool} (h : ∀ k v, m.find? k = some v → p k = q v) :
    (m.filterKeys p).values = m.values.filter q := by
  rw [values, values, List.filter_map]
  refine congrArg _ (List.filter_congr fun entry hmem => ?_)
  exact h entry.1 entry.2 (find?_eq_some_iff.mpr hmem)

namespace Aggregator

variable {a : Aggregator} {w : Millis} {window : OpenWindow} {s : Millis}

theorem hasReached_eq_false_iff :
    a.hasReached w = false ↔ ∀ v, a.closedThrough = some v → v < w := by
  rw [← Bool.not_eq_true, hasReached_iff, not_exists]
  refine forall_congr' fun v => ?_
  rw [not_and, Millis.lt_def, Int.not_le]

/-- What no call changes. -/
theorem run_fixed (a : Aggregator) (calls : List Call) :
    (a.run calls).1.ruleIndex = a.ruleIndex ∧ (a.run calls).1.rule = a.rule ∧
      (a.run calls).1.grid = a.grid := by
  induction calls generalizing a with
  | nil => exact ⟨rfl, rfl, rfl⟩
  | cons call calls ih =>
    have hstep : (a.apply call).1.ruleIndex = a.ruleIndex ∧ (a.apply call).1.rule = a.rule ∧
        (a.apply call).1.grid = a.grid := by
      cases call with
      | add t value => exact ⟨add_ruleIndex a t value, add_rule a t value, add_grid a t value⟩
      | close w =>
        exact ⟨closeThrough_ruleIndex a w, closeThrough_rule a w, closeThrough_grid a w⟩
      | clear => exact ⟨rfl, rfl, rfl⟩
    obtain ⟨hindex, hrule, hgrid⟩ := ih (a.apply call).1
    exact ⟨hindex.trans hstep.1, hrule.trans hstep.2.1, hgrid.trans hstep.2.2⟩

/-- Every call keeps the windows regular. -/
theorem Regular.run (h : a.Regular) (calls : List Call) : (a.run calls).1.Regular := by
  induction calls generalizing a with
  | nil => exact h
  | cons call calls ih =>
    refine ih (a := (a.apply call).1) ?_
    cases call with
    | add t value => exact h.add t value
    | close w => exact h.closeThrough w
    | clear => exact h.clear

/-- Whether a watermark takes a window for ended: its end on a clock without limits is not behind
the watermark, or it starts at the first instant. -/
def takesForEnded (a : Aggregator) (w : Millis) (window : OpenWindow) : Bool :=
  window.span.start = Millis.first || a.grid.endOf window.span ≤ w.val

theorem takesForEnded_iff : a.takesForEnded w window = true ↔
    window.span.start = Millis.first ∨ a.grid.endOf window.span ≤ w.val := by
  simp [takesForEnded]

namespace Regular

/-- The key of a watermark lies behind the windows that it takes for ended. -/
theorem lt_firstOpenStart (h : a.Regular) (w : Millis)
    (hfind : a.openWindows.find? s = some window) :
    decide (s < a.firstOpenStart w) = a.takesForEnded w window := by
  obtain ⟨rfl, -⟩ := h.window hfind
  have hsize := h.proper.size_pos
  by_cases hfirst : window.span.start = Millis.first
  · have hone : (1 : Millis).val = 1 := rfl
    have hlow := w.first_le
    have hbehind : window.span.start < a.firstOpenStart w := by
      rw [hfirst]
      simp only [Millis.lt_def, Millis.first_val, firstOpenStart, Millis.satAdd_val,
        Millis.satSub_val, hone]
      omega
    simp [takesForEnded, hfirst, hfirst ▸ hbehind]
  · have hlow := window.span.start.first_le
    have hgt : Millis.first < window.span.start := by
      rw [Millis.ext_iff] at hfirst
      simp only [Millis.lt_def, Millis.first_val] at *
      omega
    simp only [takesForEnded, hfirst, decide_false, Bool.false_or]
    exact decide_eq_decide.mpr (lt_firstOpenStart_iff h.proper hgt)

/-- A new watermark closes the windows that it takes for ended. -/
theorem closes_eq (h : a.Regular) (hnew : a.hasReached w = false) :
    (a.closeThrough w).2 =
      (a.openWindows.values.filter (a.takesForEnded w)).map a.closeOf := by
  rw [closeThrough_of_new hnew]
  exact congrArg _ (OrderedMap.values_filterKeys fun s window hfind => h.lt_firstOpenStart w hfind)

/-- A new watermark leaves the other windows open as they are. -/
theorem values_closeThrough (h : a.Regular) (hnew : a.hasReached w = false) :
    (a.closeThrough w).1.openWindows.values =
      a.openWindows.values.filter fun window => !a.takesForEnded w window := by
  rw [closeThrough_of_new hnew]
  refine OrderedMap.values_filterKeys fun s window hfind => ?_
  rw [← h.lt_firstOpenStart w hfind, ← decide_not]
  simp only [Millis.le_def, Millis.lt_def, Int.not_lt]

theorem holds_of_mem (h : a.Regular) (hmem : window ∈ a.openWindows.values) :
    a.grid.Holds window.span := by
  obtain ⟨s, hfind⟩ := OrderedMap.mem_values_iff.mp hmem
  exact (h.window hfind).2

/-- Open windows stand in the order of their starts. -/
theorem pairwise_values (h : a.Regular) :
    a.openWindows.values.Pairwise fun x y => x.span.start.val < y.span.start.val := by
  refine List.pairwise_map.mpr (a.openWindows.ascending.imp_of_mem ?_)
  rintro ⟨s, x⟩ ⟨s', y⟩ hx hy hrank
  have hstart := (h.window (OrderedMap.find?_eq_some_iff.mpr hx)).1
  have hstart' := (h.window (OrderedMap.find?_eq_some_iff.mpr hy)).1
  rw [hstart, hstart']
  exact hrank

/-- A watermark that reaches a window's end takes the window for ended, and the other way round, if
the window starts behind the first instant and was not cut off at the last one. -/
theorem takesForEnded_iff_stop_le (h : a.Regular) (hmem : window ∈ a.openWindows.values)
    (hfirst : window.span.start ≠ Millis.first)
    (hlast : w ≠ Millis.last ∨ a.grid.endOf window.span ≤ Millis.last.val) :
    a.takesForEnded w window = true ↔ window.span.stop ≤ w := by
  have hstop := (h.holds_of_mem hmem).stop_val h.proper
  have hhigh := w.le_last
  rw [takesForEnded_iff, or_iff_right hfirst]
  simp only [Millis.le_def, Ne, Millis.ext_iff, Millis.last_val] at *
  omega

/-- Windows close in the order of their ends. -/
theorem pairwise_closes (h : a.Regular) (hnew : a.hasReached w = false) :
    (a.closeThrough w).2.Pairwise fun c d => c.span.stop.val < d.span.stop.val := by
  rw [h.closes_eq hnew]
  refine List.pairwise_map.mpr ((h.pairwise_values.filter _).imp_of_mem ?_)
  intro x y hx hy hlt
  obtain ⟨hx, -⟩ := List.mem_filter.mp hx
  obtain ⟨hy, hended⟩ := List.mem_filter.mp hy
  have hstop := (h.holds_of_mem hx).stop_val h.proper
  have hstop' := (h.holds_of_mem hy).stop_val h.proper
  -- The later window does not start at the first instant, so its end was not cut off.
  have hbehind : y.span.start ≠ Millis.first := by
    have hlow := x.span.start.first_le
    rw [Ne, Millis.ext_iff, Millis.first_val]
    omega
  have hend := (takesForEnded_iff.mp hended).resolve_left hbehind
  have hhigh := w.le_last
  show x.span.stop.val < y.span.stop.val
  simp only [WindowGrid.endOf] at *
  omega

end Regular

/-- What a new watermark closes and what it leaves, in every aggregator that calls can lead to: it
closes the windows whose length after their start is not behind it, whatever end they were given,
and those that start at the first instant of the clock, in the strict order of their ends; all
others stay open, in their order and with their samples. So it closes a window exactly if the
window's end is not behind it, unless the window starts at the first instant, or the watermark is
the last instant and the end was cut off there. -/
theorem watermarks_close_by_starts {index maxOpen : Nat} {rule : Rule} {origin w : Millis}
    {calls : List Call} (hrule : rule.flaw? = none)
    (hnew : ∀ v, ((new index rule origin maxOpen).run calls).1.closedThrough = some v → v < w) :
    let a := ((new index rule origin maxOpen).run calls).1
    let ended := fun window : OpenWindow => decide (window.span.start = Millis.first ∨
      window.span.start.val + rule.windowSize.val ≤ w.val)
    (a.closeThrough w).2 = (a.openWindows.values.filter ended).map (fun window =>
      ⟨index, window.span, window.samples.length, Aggregate.ofSamples rule window.samples⟩) ∧
    (a.closeThrough w).1.openWindows.values =
      a.openWindows.values.filter (fun window => !ended window) ∧
    (a.closeThrough w).2.Pairwise (fun c d => c.span.stop.val < d.span.stop.val) ∧
    ∀ window ∈ a.openWindows.values, window.span.start ≠ Millis.first →
      (w ≠ Millis.last ∨ window.span.start.val + rule.windowSize.val ≤ Millis.last.val) →
      (ended window = true ↔ window.span.stop ≤ w) := by
  intro a ended
  have hregular : a.Regular := (regular_new hrule).run calls
  obtain ⟨hindex, hrule', hgrid⟩ := (new index rule origin maxOpen).run_fixed calls
  have hended : ended = a.takesForEnded w := by
    funext window
    have hend : a.grid.endOf window.span = window.span.start.val + rule.windowSize.val := by
      rw [hgrid]
      rfl
    simp only [ended, takesForEnded, hend, Bool.decide_or]
  have hcloseOf : a.closeOf = fun window => ⟨index, window.span, window.samples.length,
      Aggregate.ofSamples rule window.samples⟩ := by
    funext window
    rw [closeOf, hindex, hrule']
    rfl
  have hreached := hasReached_eq_false_iff.mpr hnew
  rw [hended, ← hcloseOf]
  refine ⟨hregular.closes_eq hreached, hregular.values_closeThrough hreached,
    hregular.pairwise_closes hreached, ?_⟩
  intro window hmem hfirst hlast
  refine hregular.takesForEnded_iff_stop_le hmem hfirst (hlast.imp_right ?_)
  rw [hgrid]
  exact id

/-- Of two windows, one starts at the first instant of the clock. A watermark half-way through it
closes it and leaves the other one. -/
theorem watermarks_close_by_starts_first :
    let rule : Rule := ⟨1, some 0.0, none, .both, 1000, 1000, .count, none⟩
    let calls : List Call := [.add (Millis.clamp (-9223372036854775708)) (.number 1.0),
      .add (Millis.clamp (-9223372036854774708)) (.number 2.0)]
    let w := Millis.clamp (-9223372036854775308)
    let a := ((new 0 rule Millis.first 8).run calls).1
    rule.flaw? = none ∧ (∀ v, a.closedThrough = some v → v < w) ∧
      (a.closeThrough w).2.map WindowClose.span =
        [⟨Millis.first, Millis.clamp (-9223372036854774808)⟩] ∧
      (a.closeThrough w).1.openSpans =
        [⟨Millis.clamp (-9223372036854774808), Millis.clamp (-9223372036854773808)⟩] := by
  intro rule calls w a
  have hrule : rule.flaw? = none := by decide
  have hclosed : a.closedThrough = none := by decide +kernel
  have hnew : ∀ v, a.closedThrough = some v → v < w := by
    rw [hclosed]
    rintro v ⟨⟩
  obtain ⟨hcloses, hopen, -, -⟩ := watermarks_close_by_starts hrule hnew
  refine ⟨hrule, hnew, ?_, ?_⟩
  · rw [hcloses, List.map_map]
    decide +kernel
  · rw [openSpans, hopen]
    decide +kernel

/-- Ends do not decide what is closed: the window that starts at the first instant is closed before
its end, and a window whose end was cut off at the last instant stays open when that is reached. -/
theorem closing_is_not_by_ends :
    let rule : Rule := ⟨1, some 0.0, none, .both, 1000, 1000, .count, none⟩
    let early := ((new 0 rule Millis.first 8).run
      [.add (Millis.clamp (-9223372036854775708)) (.number 1.0)]).1
    let watermark := Millis.clamp (-9223372036854775308)
    let late := ((new 0 rule 0 8).run [.add 9223372036854775500 (.number 1.0)]).1
    rule.flaw? = none ∧ early.closedThrough = none ∧ late.closedThrough = none ∧
      early.openSpans = [⟨Millis.first, Millis.clamp (-9223372036854774808)⟩] ∧
      (early.closeThrough watermark).2.map WindowClose.span ≠
        early.openSpans.filter (fun span => decide (span.stop ≤ watermark)) ∧
      (early.closeThrough watermark).1.openSpans ≠
        early.openSpans.filter (fun span => decide (watermark < span.stop)) ∧
      late.openSpans = [⟨9223372036854775000, Millis.last⟩] ∧
      (late.closeThrough Millis.last).2.map WindowClose.span ≠
        late.openSpans.filter (fun span => decide (span.stop ≤ Millis.last)) ∧
      (late.closeThrough Millis.last).1.openSpans ≠
        late.openSpans.filter (fun span => decide (Millis.last < span.stop)) := by
  decide +kernel

end Aggregator

end TelemetryBands
