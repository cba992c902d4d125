import TelemetryBands.Ladder.Basic
import TelemetryBands.Proofs.Clock.Saturation
import TelemetryBands.Window.Grid

/-!
# The windows of a grid

A window belongs to a grid if it starts a whole number of offsets after the origin. This file proves
that `windowsContaining` lists, in ascending order, exactly the windows of the grid that hold an
instant, and that the start key of a closing watermark separates the windows that have ended.
-/

namespace TelemetryBands

/-- A rule without flaw has windows of positive length at positive distances. -/
theorem Rule.window_pos {r : Rule} (h : r.flaw? = none) :
    0 < r.windowSize ∧ 0 < r.windowOffset := by
  simp only [flaw?, Option.orElse_eq_orElse, Option.orElse_eq_or, Option.or_eq_none_iff] at h
  have hwindow : r.windowFlaw? = none := h.2.1
  unfold windowFlaw? at hwindow
  simp only [Millis.le_def, Millis.lt_def] at *
  split at hwindow
  · cases hwindow
  · split at hwindow
    · cases hwindow
    · omega

/-- Every rule of a ladder is without flaw. -/
theorem Ladder.flaw?_of_mem {l : Ladder} {r : Rule} (h : r ∈ l.rules) : r.flaw? = none := by
  have hsound := l.sound
  unfold Ladder.flaw? at hsound
  split at hsound
  · cases hsound
  · simp only [Option.orElse_eq_orElse, Option.orElse_eq_or, Option.or_eq_none_iff,
      List.findSome?_eq_none_iff] at hsound
    simpa using hsound.1 r h

namespace WindowGrid

/-- The length and the distance of the windows are positive. -/
structure Proper (g : WindowGrid) : Prop where
  size_pos : 0 < g.size.val
  offset_pos : 0 < g.offset.val

/-- A span is a window of the grid: it starts a whole number of offsets after the origin and ends
one length later, or at the end of the clock. -/
structure Holds (g : WindowGrid) (span : Span) : Prop where
  start : ∃ k : Nat, span.start.val = g.origin.val + k * g.offset.val
  stop : span.stop = span.start.satAdd g.size

/-- The distance of an instant from the origin is one that the clock can show. -/
def Reaches (g : WindowGrid) (t : Millis) : Prop :=
  t.val - g.origin.val ≤ 9223372036854775807

instance (g : WindowGrid) (t : Millis) : Decidable (g.Reaches t) :=
  inferInstanceAs (Decidable (_ ≤ _))

/-- Where a window ends on a clock without limits. -/
def endOf (g : WindowGrid) (span : Span) : Int :=
  span.start.val + g.size.val

theorem mem_indices {first last k : Int} : k ∈ indices first last ↔ first ≤ k ∧ k ≤ last := by
  simp only [indices, List.mem_map, List.mem_range]
  constructor
  · rintro ⟨i, hi, rfl⟩
    omega
  · rintro ⟨hfirst, hlast⟩
    exact ⟨(k - first).toNat, by omega, by omega⟩

theorem pairwise_indices (first last : Int) : (indices first last).Pairwise (· < ·) := by
  refine List.pairwise_map.mpr (List.pairwise_lt_range.imp ?_)
  intro i j hij
  omega

theorem elapsed?_eq_some_iff {g : WindowGrid} {t elapsed : Millis} :
    g.elapsed? t = some elapsed ↔
      elapsed.val = t.val - g.origin.val ∧ 0 ≤ t.val - g.origin.val := by
  rw [elapsed?, Option.filter_eq_some_iff, Millis.ofInt?_eq_some_iff]
  simp only [decide_eq_true_eq, Millis.le_def, Millis.zero_val]
  constructor
  · rintro ⟨hval, hpos⟩
    omega
  · rintro ⟨hval, hpos⟩
    omega

namespace Holds

variable {g : WindowGrid} {span : Span}

theorem origin_le (h : g.Holds span) (hg : g.Proper) : g.origin.val ≤ span.start.val := by
  obtain ⟨k, hk⟩ := h.start
  have := Int.mul_nonneg (Int.natCast_nonneg k) (Int.le_of_lt hg.offset_pos)
  omega

/-- A window ends at its end without limits, or at the end of the clock. -/
theorem stop_val (h : g.Holds span) (hg : g.Proper) :
    span.stop.val = min (g.endOf span) 9223372036854775807 := by
  have hlow := span.start.first_le
  have hsize := hg.size_pos
  rw [h.stop, Millis.satAdd_val, endOf]
  omega

/-- Before the last instant of the clock, where a window was cut off makes no difference to a
watermark. -/
theorem endOf_le_iff (h : g.Holds span) (hg : g.Proper) {w : Millis}
    (hw : w < Millis.last) : g.endOf span ≤ w.val ↔ span.stop ≤ w := by
  have hstop := h.stop_val hg
  simp only [Millis.lt_def, Millis.le_def, Millis.last_val] at *
  omega

/-- Windows of a grid that start together are the same. -/
theorem eq_of_start {other : Span} (h : g.Holds span) (h' : g.Holds other)
    (hstart : span.start = other.start) : span = other := by
  obtain ⟨start, stop⟩ := span
  obtain ⟨start', stop'⟩ := other
  obtain rfl : start = start' := hstart
  have hstop : stop = stop' := h.stop.trans h'.stop.symm
  rw [hstop]

end Holds

theorem spanAt_of_mem_indices {g : WindowGrid} (hg : g.Proper) {t elapsed : Millis}
    (helapsed : g.elapsed? t = some elapsed) {k : Int}
    (hk : k ∈ indices (g.firstIndex elapsed) (g.lastIndex elapsed)) :
    0 ≤ k ∧ (g.spanAt k).start.val = g.origin.val + k * g.offset.val := by
  obtain ⟨hfirst, hlast⟩ := mem_indices.mp hk
  obtain ⟨hval, hpos⟩ := elapsed?_eq_some_iff.mp helapsed
  have hnonneg : 0 ≤ k := by
    unfold firstIndex at hfirst
    omega
  have hmul : k * g.offset.val ≤ elapsed.val := (Int.le_ediv_iff_mul_le hg.offset_pos).mp hlast
  have hmul' : 0 ≤ k * g.offset.val := Int.mul_nonneg hnonneg (Int.le_of_lt hg.offset_pos)
  refine ⟨hnonneg, Millis.clamp_of_mem ?_ ?_⟩
  · have := g.origin.first_le
    unfold startAt
    omega
  · have := t.le_last
    unfold startAt
    omega

/-- The windows listed for an instant are those of the grid that hold it, as long as the clock can
show its distance from the origin. -/
theorem mem_windowsContaining {g : WindowGrid} (hg : g.Proper) {t : Millis} {span : Span} :
    span ∈ g.windowsContaining t ↔ g.Holds span ∧ span.contains t ∧ g.Reaches t := by
  have hoffset := hg.offset_pos
  unfold windowsContaining
  cases helapsed : g.elapsed? t with
  | none =>
    simp only [List.not_mem_nil, false_iff]
    rintro ⟨hholds, hcontains, hreaches⟩
    have horigin := hholds.origin_le hg
    simp only [Span.contains, Bool.and_eq_true, decide_eq_true_eq, Millis.le_def] at hcontains
    have hsome : g.elapsed? t = some (Millis.clamp (t.val - g.origin.val)) := by
      rw [elapsed?_eq_some_iff, Millis.clamp_eq]
      unfold Reaches at hreaches
      omega
    rw [helapsed] at hsome
    cases hsome
  | some elapsed =>
    obtain ⟨hval, hpos⟩ := elapsed?_eq_some_iff.mp helapsed
    have hreaches : g.Reaches t := by
      have := elapsed.le_last
      unfold Reaches
      omega
    simp only [List.mem_filter, List.mem_map]
    constructor
    · rintro ⟨⟨k, hk, rfl⟩, hcontains⟩
      obtain ⟨hnonneg, hstart⟩ := spanAt_of_mem_indices hg helapsed hk
      obtain ⟨n, rfl⟩ := Int.eq_ofNat_of_zero_le hnonneg
      exact ⟨⟨⟨n, hstart⟩, rfl⟩, hcontains, hreaches⟩
    · rintro ⟨hholds, hcontains, -⟩
      obtain ⟨k, hk⟩ := hholds.start
      have hstop := hholds.stop_val hg
      refine ⟨⟨k, ?_, ?_⟩, hcontains⟩
      · simp only [Span.contains, Bool.and_eq_true, decide_eq_true_eq, Millis.le_def,
          Millis.lt_def] at hcontains
        refine mem_indices.mpr ⟨?_, (Int.le_ediv_iff_mul_le hoffset).mpr (by omega)⟩
        have hlt : (elapsed.val - g.size.val) / g.offset.val < k := by
          apply (Int.ediv_lt_iff_lt_mul hoffset).mpr
          unfold endOf at hstop
          omega
        unfold firstIndex
        omega
      · have hclamp : Millis.clamp (g.startAt k) = span.start := by
          rw [startAt, ← hk, Millis.clamp_val]
        unfold spanAt
        simp only [hclamp, ← hholds.stop]

/-- The windows listed for an instant stand in ascending order. -/
theorem pairwise_windowsContaining {g : WindowGrid} (hg : g.Proper) (t : Millis) :
    (g.windowsContaining t).Pairwise fun a b => a.start.val < b.start.val := by
  unfold windowsContaining
  cases helapsed : g.elapsed? t with
  | none => exact List.Pairwise.nil
  | some elapsed =>
    apply List.Pairwise.filter
    apply List.pairwise_map.mpr
    apply (pairwise_indices _ _).imp_of_mem
    intro j k hj hk hjk
    obtain ⟨-, hstart⟩ := spanAt_of_mem_indices hg helapsed hj
    obtain ⟨-, hstart'⟩ := spanAt_of_mem_indices hg helapsed hk
    have := Int.mul_lt_mul_of_pos_right hjk hg.offset_pos
    omega

/-- The windows listed for an instant have different starts. -/
theorem starts_differ {g : WindowGrid} (hg : g.Proper) (t : Millis) :
    (g.windowsContaining t).Pairwise fun a b => a.start ≠ b.start := by
  refine (pairwise_windowsContaining hg t).imp fun hlt heq => ?_
  rw [heq] at hlt
  exact Int.lt_irrefl _ hlt

end WindowGrid

end TelemetryBands
