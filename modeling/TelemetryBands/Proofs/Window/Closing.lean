import TelemetryBands.Proofs.Window.Admission

/-!
# Closing of windows

A watermark closes windows by comparing their starts with one key. In an aggregator whose windows
stand under their own starts on a grid that begins behind the first instant of the clock, that is
the same as comparing their ends with the watermark. The ends here are those on a clock without
limits: a window whose end was cut off at the last instant is never closed.
-/

namespace TelemetryBands.Aggregator

/-- The watermark has passed the end of a window, taken on a clock without limits. -/
def HasPassed (a : Aggregator) (span : Span) : Prop :=
  ∃ w, a.closedThrough = some w ∧ a.grid.endOf span ≤ w.val

/-- Every open window is a window of the grid, stands under its own start and has not been
passed. -/
structure Regular (a : Aggregator) : Prop where
  proper : a.grid.Proper
  window : ∀ {s : Millis} {window : OpenWindow}, a.openWindows.find? s = some window →
    window.span.start = s ∧ a.grid.Holds window.span
  pending : ∀ {s : Millis} {window : OpenWindow}, a.openWindows.find? s = some window →
    ¬ a.HasPassed window.span

variable {a : Aggregator} {w : Millis} {span : Span}

/-- A window that has been passed has been reached. -/
theorem HasPassed.hasReached (h : a.HasPassed span) (hg : a.grid.Proper)
    (hholds : a.grid.Holds span) : a.hasReached span.stop = true := by
  obtain ⟨v, hv, hend⟩ := h
  have hstop := hholds.stop_val hg
  exact hasReached_iff.mpr ⟨v, hv, by omega⟩

/-- A watermark that was reached before closes nothing and changes nothing. -/
theorem closeThrough_of_reached (h : a.hasReached w = true) : a.closeThrough w = (a, []) := by
  simp [closeThrough, h]

/-- A new watermark keeps the windows that start at its key or later and closes the others. -/
theorem closeThrough_of_new (h : a.hasReached w = false) :
    a.closeThrough w =
      let closing := (a.openWindows.filterKeys fun s => decide (s < a.firstOpenStart w)).values
      ({ a with
          openWindows := a.openWindows.filterKeys fun s => decide (a.firstOpenStart w ≤ s)
          closedThrough := some w
          counts :=
            { a.counts with windowsClosed := a.counts.windowsClosed + closing.length } },
        closing.map a.closeOf) := by
  simp [closeThrough, h]

@[simp] theorem closeThrough_ruleIndex (a : Aggregator) (w : Millis) :
    (a.closeThrough w).1.ruleIndex = a.ruleIndex := by
  unfold closeThrough
  split <;> rfl

@[simp] theorem closeThrough_rule (a : Aggregator) (w : Millis) :
    (a.closeThrough w).1.rule = a.rule := by
  unfold closeThrough
  split <;> rfl

@[simp] theorem closeThrough_grid (a : Aggregator) (w : Millis) :
    (a.closeThrough w).1.grid = a.grid := by
  unfold closeThrough
  split <;> rfl

@[simp] theorem closeThrough_nextArrival (a : Aggregator) (w : Millis) :
    (a.closeThrough w).1.nextArrival = a.nextArrival := by
  unfold closeThrough
  split <;> rfl

@[simp] theorem closeThrough_maxOpen (a : Aggregator) (w : Millis) :
    (a.closeThrough w).1.maxOpen = a.maxOpen := by
  unfold closeThrough
  split <;> rfl

theorem closeThrough_closedThrough (h : a.hasReached w = false) :
    (a.closeThrough w).1.closedThrough = some w := by
  rw [closeThrough_of_new h]

/-- Closing windows counts them. -/
theorem windowsClosed_closeThrough (a : Aggregator) (w : Millis) :
    (a.closeThrough w).1.counts.windowsClosed =
      a.counts.windowsClosed + (a.closeThrough w).2.length := by
  cases hreached : a.hasReached w with
  | true =>
    rw [closeThrough_of_reached hreached]
    rfl
  | false =>
    rw [closeThrough_of_new hreached]
    simp

/-- What a watermark leaves open was open before. -/
theorem find?_of_closeThrough {s : Millis} {window : OpenWindow}
    (h : (a.closeThrough w).1.openWindows.find? s = some window) :
    a.openWindows.find? s = some window := by
  cases hreached : a.hasReached w with
  | true =>
    rw [closeThrough_of_reached hreached] at h
    exact h
  | false =>
    rw [closeThrough_of_new hreached] at h
    simp only [OrderedMap.find?_filterKeys] at h
    split at h
    · exact h
    · cases h

/-- What is closed was open, and starts before the start key of a new watermark. -/
theorem of_mem_closeThrough {c : WindowClose} (hc : c ∈ (a.closeThrough w).2) :
    a.hasReached w = false ∧ ∃ s window, a.openWindows.find? s = some window ∧
      s < a.firstOpenStart w ∧ c = a.closeOf window := by
  cases hreached : a.hasReached w with
  | true =>
    rw [closeThrough_of_reached hreached] at hc
    cases hc
  | false =>
    rw [closeThrough_of_new hreached] at hc
    obtain ⟨window, hmem, rfl⟩ := List.mem_map.mp hc
    obtain ⟨s, hfind⟩ := OrderedMap.mem_values_iff.mp hmem
    rw [OrderedMap.find?_filterKeys] at hfind
    split at hfind
    · rename_i hs
      exact ⟨rfl, s, window, hfind, of_decide_eq_true hs, rfl⟩
    · cases hfind

/-- What a close is made of was in an open window. -/
theorem exists_of_mem_closeThrough {c : WindowClose} (hc : c ∈ (a.closeThrough w).2) :
    ∃ s window, a.openWindows.find? s = some window ∧ c = a.closeOf window := by
  obtain ⟨-, s, window, hfind, -, hclose⟩ := of_mem_closeThrough hc
  exact ⟨s, window, hfind, hclose⟩

/-- Closes carry the place of the rule. -/
theorem ruleIndex_of_mem {c : WindowClose} (h : c ∈ (a.closeThrough w).2) :
    c.ruleIndex = a.ruleIndex := by
  obtain ⟨s, window, -, rfl⟩ := exists_of_mem_closeThrough h
  rfl

theorem hasPassed_closeThrough (hnew : a.hasReached w = false) :
    (a.closeThrough w).1.HasPassed span ↔ a.grid.endOf span ≤ w.val := by
  simp only [HasPassed, closeThrough_closedThrough hnew, closeThrough_grid, Option.some.injEq]
  constructor
  · rintro ⟨v, rfl, hend⟩
    exact hend
  · intro hend
    exact ⟨w, rfl, hend⟩

/-- A new watermark passes every window that the watermark before it had passed. -/
theorem endOf_le_of_hasPassed (hnew : a.hasReached w = false) (h : a.HasPassed span) :
    a.grid.endOf span ≤ w.val := by
  obtain ⟨v, hv, hend⟩ := h
  have hlt : v.val < w.val := by
    by_contra hle
    rw [hasReached_iff.mpr ⟨v, hv, by omega⟩] at hnew
    cases hnew
  omega

/-- The start key of a watermark lies behind exactly the windows that have ended. -/
theorem lt_firstOpenStart_iff (hg : a.grid.Proper)
    (hstart : Millis.first < span.start) :
    span.start < a.firstOpenStart w ↔ a.grid.endOf span ≤ w.val := by
  have hsize := hg.size_pos
  have hone : (1 : Millis).val = 1 := rfl
  have hlow := w.first_le
  have hhigh := w.le_last
  have hlast := a.grid.size.le_last
  simp only [Millis.lt_def, Millis.first_val, firstOpenStart, WindowGrid.endOf, Millis.satAdd_val,
    Millis.satSub_val, hone] at *
  omega

/-- What starts at the start key of a watermark or later ends behind the watermark. -/
theorem lt_endOf_of_firstOpenStart_le (hg : a.grid.Proper)
    (hstart : a.firstOpenStart w ≤ span.start) : w.val < a.grid.endOf span := by
  have hsize := hg.size_pos
  have hone : (1 : Millis).val = 1 := rfl
  have hlow := w.first_le
  have hhigh := w.le_last
  simp only [Millis.le_def, firstOpenStart, WindowGrid.endOf, Millis.satAdd_val, Millis.satSub_val,
    hone] at *
  omega

/-- A later watermark has a start key that is not before. -/
theorem firstOpenStart_mono {v : Millis} (a : Aggregator) (hle : v ≤ w) :
    a.firstOpenStart v ≤ a.firstOpenStart w := by
  simp only [Millis.le_def, firstOpenStart, Millis.satAdd_val, Millis.satSub_val] at *
  omega

theorem hasReached_closeThrough {v t : Millis} (h : a.hasReached v = false) :
    (a.closeThrough v).1.hasReached t = decide (t ≤ v) := by
  rw [hasReached, closeThrough_closedThrough h]
  rfl

/-- After a watermark it is reached. -/
theorem hasReached_closeThrough_self (a : Aggregator) (w : Millis) :
    (a.closeThrough w).1.hasReached w = true := by
  cases hreached : a.hasReached w with
  | true =>
    rw [closeThrough_of_reached hreached]
    exact hreached
  | false =>
    rw [hasReached_closeThrough hreached]
    exact decide_eq_true (Int.le_refl w.val)

/-- The windows that end up to a watermark are those that end up to an earlier one, and then those
that this one leaves open. -/
theorem closing_append {v : Millis} (a : Aggregator) (hle : v ≤ w) :
    (a.openWindows.filterKeys fun s => decide (s < a.firstOpenStart w)).values =
      (a.openWindows.filterKeys fun s => decide (s < a.firstOpenStart v)).values ++
        ((a.openWindows.filterKeys fun s => decide (a.firstOpenStart v ≤ s)).filterKeys fun s =>
          decide (s < a.firstOpenStart w)).values := by
  have hkeys := a.firstOpenStart_mono hle
  rw [OrderedMap.filterKeys_filterKeys, a.openWindows.values_filterKeys_append
    (q := fun s => decide (s < a.firstOpenStart v))]
  · congr 3
    funext s
    rw [← decide_not]
    congr 2
    simp only [Millis.le_def, Millis.lt_def, Int.not_lt]
  · intro s hs
    simp only [decide_eq_true_eq, Millis.le_def, Millis.lt_def] at *
    omega
  · intro s s' hs hs'
    simp only [decide_eq_true_eq, decide_eq_false_iff_not, Millis.lt_def] at hs hs'
    show s.val < s'.val
    omega

/-- What a watermark leaves open is what it leaves open of what an earlier one left open. -/
theorem open_eq {v : Millis} (a : Aggregator) (hle : v ≤ w) :
    ((a.openWindows.filterKeys fun s => decide (a.firstOpenStart v ≤ s)).filterKeys fun s =>
      decide (a.firstOpenStart w ≤ s)) =
        a.openWindows.filterKeys fun s => decide (a.firstOpenStart w ≤ s) := by
  have hkeys := a.firstOpenStart_mono hle
  rw [OrderedMap.filterKeys_filterKeys]
  congr 1
  funext s
  rw [Bool.and_eq_left_iff_imp]
  simp only [decide_eq_true_eq, Millis.le_def] at *
  omega

/-- Two watermarks, the later one second, leave the same windows open as the later one alone and
close the same windows in the same order. -/
theorem closeThrough_closeThrough {v : Millis} (a : Aggregator) (hlt : v < w) :
    ((a.closeThrough v).1.closeThrough w).1 = (a.closeThrough w).1 ∧
      (a.closeThrough w).2 = (a.closeThrough v).2 ++ ((a.closeThrough v).1.closeThrough w).2 := by
  have hle : v ≤ w := Int.le_of_lt hlt
  cases hfirst : a.hasReached v with
  | true =>
    rw [closeThrough_of_reached hfirst]
    exact ⟨rfl, rfl⟩
  | false =>
    have hsecond : a.hasReached w = false := by
      refine Bool.eq_false_iff.mpr fun hreached => ?_
      obtain ⟨u, hu, hwu⟩ := hasReached_iff.mp hreached
      rw [Millis.le_def] at hle
      rw [hasReached_iff.mpr ⟨u, hu, by omega⟩] at hfirst
      cases hfirst
    have hnext : (a.closeThrough v).1.hasReached w = false := by
      rw [hasReached_closeThrough hfirst]
      simp only [Millis.le_def, Millis.lt_def, decide_eq_false_iff_not] at *
      omega
    have hopen := a.open_eq hle
    have hclosing := a.closing_append hle
    have hkey : (a.closeThrough v).1.firstOpenStart w = a.firstOpenStart w := by
      rw [firstOpenStart, closeThrough_grid, firstOpenStart]
    rw [closeThrough_of_new hnext, closeThrough_of_new hsecond, hkey, closeThrough_of_new hfirst]
    constructor
    · simp only [hopen, hclosing, List.length_append, Nat.add_assoc]
    · simp only [hclosing, List.map_append]
      rfl

namespace Regular

theorem start_gt_first (h : a.Regular) (horigin : Millis.first < a.grid.origin) {s : Millis}
    {window : OpenWindow} (hfind : a.openWindows.find? s = some window) :
    Millis.first < window.span.start := by
  have hle := (h.window hfind).2.origin_le h.proper
  simp only [Millis.lt_def] at *
  omega

/-- What stays open are the windows that have not ended. -/
theorem find?_closeThrough (h : a.Regular) (horigin : Millis.first < a.grid.origin)
    (hnew : a.hasReached w = false) {s : Millis} {window : OpenWindow} :
    (a.closeThrough w).1.openWindows.find? s = some window ↔
      a.openWindows.find? s = some window ∧ w.val < a.grid.endOf window.span := by
  simp only [closeThrough, hnew, Bool.false_eq_true, if_false, OrderedMap.find?_filterKeys]
  have hkey : a.openWindows.find? s = some window →
      (a.firstOpenStart w ≤ s ↔ w.val < a.grid.endOf window.span) := by
    intro hfind
    have hiff := lt_firstOpenStart_iff (w := w) h.proper (h.start_gt_first horigin hfind)
    rw [(h.window hfind).1] at hiff
    simp only [Millis.le_def, Millis.lt_def] at *
    omega
  by_cases hs : a.firstOpenStart w ≤ s
  · simp only [hs, decide_true, if_true]
    exact ⟨fun hfind => ⟨hfind, (hkey hfind).mp hs⟩, And.left⟩
  · simp only [hs, decide_false, Bool.false_eq_true, if_false, reduceCtorEq, false_iff]
    rintro ⟨hfind, hend⟩
    exact hs ((hkey hfind).mpr hend)

/-- What is closed are the windows that have ended. -/
theorem mem_closeThrough (h : a.Regular) (horigin : Millis.first < a.grid.origin)
    (hnew : a.hasReached w = false) {c : WindowClose} :
    c ∈ (a.closeThrough w).2 ↔
      ∃ s window, a.openWindows.find? s = some window ∧ a.grid.endOf window.span ≤ w.val ∧
        c = a.closeOf window := by
  simp only [closeThrough, hnew, Bool.false_eq_true, if_false, List.mem_map,
    OrderedMap.mem_values_iff, OrderedMap.find?_filterKeys]
  constructor
  · rintro ⟨window, ⟨s, hfind⟩, rfl⟩
    split at hfind
    · rename_i hs
      refine ⟨s, window, hfind, ?_, rfl⟩
      rw [← lt_firstOpenStart_iff h.proper (h.start_gt_first horigin hfind), (h.window hfind).1]
      exact of_decide_eq_true hs
    · cases hfind
  · rintro ⟨s, window, hfind, hend, rfl⟩
    refine ⟨window, ⟨s, ?_⟩, rfl⟩
    rw [← lt_firstOpenStart_iff h.proper (h.start_gt_first horigin hfind),
      (h.window hfind).1] at hend
    rw [if_pos (decide_eq_true hend), hfind]

/-- A window that has ended was not cut off at the last instant of the clock. -/
theorem stop_of_closed (h : a.Regular) {s : Millis} {window : OpenWindow}
    (hfind : a.openWindows.find? s = some window) (hend : a.grid.endOf window.span ≤ w.val) :
    window.span.stop.val = a.grid.endOf window.span := by
  have hstop := (h.window hfind).2.stop_val h.proper
  have hlast := w.le_last
  omega

/-- Nor was a window that is closed before its end, since it starts at the first instant. -/
theorem stop_eq_endOf (h : a.Regular) {s : Millis} {window : OpenWindow}
    (hfind : a.openWindows.find? s = some window) (hs : s < a.firstOpenStart w) :
    window.span.stop.val = a.grid.endOf window.span := by
  by_cases hfirst : Millis.first < window.span.start
  · refine h.stop_of_closed (w := w) hfind ?_
    rwa [← lt_firstOpenStart_iff h.proper hfirst, (h.window hfind).1]
  · have hstop := (h.window hfind).2.stop_val h.proper
    have hsize := a.grid.size.le_last
    simp only [WindowGrid.endOf, Millis.lt_def, Millis.first_val] at *
    omega

/-- On a grid that begins behind the first instant all windows start behind it. -/
theorem first_lt_of_mem (h : a.Regular) (horigin : Millis.first < a.grid.origin) {c : WindowClose}
    (hmem : c ∈ (a.closeThrough w).2) : Millis.first < c.span.start := by
  obtain ⟨s, window, hfind, rfl⟩ := exists_of_mem_closeThrough hmem
  exact h.start_gt_first horigin hfind

/-- What a watermark closes has ended by then, and behind every instant that was reached before,
unless it starts at the first instant. -/
theorem stop_of_mem (h : a.Regular) {c : WindowClose} (hmem : c ∈ (a.closeThrough w).2)
    (hfirst : Millis.first < c.span.start) :
    c.span.stop ≤ w ∧ ∀ v, a.hasReached v = true → v < c.span.stop := by
  obtain ⟨-, s, window, hfind, hs, rfl⟩ := of_mem_closeThrough hmem
  have hstop := h.stop_eq_endOf hfind hs
  constructor
  · have hfirst : Millis.first < window.span.start := hfirst
    rw [← (h.window hfind).1] at hs
    have hend := (lt_firstOpenStart_iff h.proper hfirst).mp hs
    show window.span.stop.val ≤ w.val
    rw [hstop]
    exact hend
  · intro v hv
    obtain ⟨u, hu, hle⟩ := hasReached_iff.mp hv
    by_contra hlt
    apply h.pending hfind
    refine ⟨u, hu, ?_⟩
    have hnot : ¬ v.val < window.span.stop.val := hlt
    omega

/-- Windows are closed in the order of their ends. -/
theorem pairwise_closeThrough (h : a.Regular) :
    (a.closeThrough w).2.Pairwise fun c d => c.span.stop.val < d.span.stop.val := by
  cases hreached : a.hasReached w with
  | true =>
    rw [closeThrough_of_reached hreached]
    exact List.Pairwise.nil
  | false =>
    simp only [closeThrough, hreached, Bool.false_eq_true, if_false, OrderedMap.values,
      List.map_map]
    apply List.pairwise_map.mpr
    apply (a.openWindows.filterKeys _).ascending.imp_of_mem
    rintro ⟨s, window⟩ ⟨s', window'⟩ hmem hmem' hrank
    obtain ⟨hmem, hs⟩ := OrderedMap.mem_filterKeys.mp hmem
    obtain ⟨hmem', hs'⟩ := OrderedMap.mem_filterKeys.mp hmem'
    have hfind := OrderedMap.find?_eq_some_iff.mpr hmem
    have hfind' := OrderedMap.find?_eq_some_iff.mpr hmem'
    have hstop := h.stop_eq_endOf hfind (of_decide_eq_true hs)
    have hstop' := h.stop_eq_endOf hfind' (of_decide_eq_true hs')
    have hlt : s.val < s'.val := hrank
    show window.span.stop.val < window'.span.stop.val
    rw [hstop, hstop', WindowGrid.endOf, WindowGrid.endOf, (h.window hfind).1, (h.window hfind').1]
    omega

/-- Closing keeps the windows of an aggregator regular, wherever its grid begins. -/
theorem closeThrough (h : a.Regular) (w : Millis) : (a.closeThrough w).1.Regular := by
  cases hreached : a.hasReached w with
  | true =>
    rw [closeThrough_of_reached hreached]
    exact h
  | false =>
    have hkept : ∀ {s window}, (a.closeThrough w).1.openWindows.find? s = some window →
        a.openWindows.find? s = some window ∧ a.firstOpenStart w ≤ s := by
      intro s window hfind
      simp only [Aggregator.closeThrough, hreached, Bool.false_eq_true, if_false,
        OrderedMap.find?_filterKeys] at hfind
      split at hfind
      · rename_i hs
        exact ⟨hfind, of_decide_eq_true hs⟩
      · cases hfind
    refine ⟨?_, ?_, ?_⟩
    · rw [closeThrough_grid]
      exact h.proper
    · intro s window hfind
      rw [closeThrough_grid]
      exact h.window (hkept hfind).1
    · intro s window hfind
      obtain ⟨hfind, hs⟩ := hkept hfind
      rw [hasPassed_closeThrough hreached, Int.not_le]
      rw [← (h.window hfind).1] at hs
      exact lt_endOf_of_firstOpenStart_le h.proper hs

end Regular

end TelemetryBands.Aggregator
