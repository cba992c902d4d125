import TelemetryBands.Proofs.Clock.Refusal
import TelemetryBands.Proofs.Window.Grid
import TelemetryBands.Window.Aggregator

/-!
# Windows without overflow

The windows of an instant, calculated by arithmetic that refuses what 64 bits cannot show. On the
grid of a rule without flaw no step is refused, however far the origin and the instant lie apart.
-/

namespace TelemetryBands

/-- A rule without flaw has windows of bounded length at bounded distances. -/
theorem Rule.window_le_longest {r : Rule} (h : r.flaw? = none) :
    r.windowSize ≤ longestWindow ∧ r.windowOffset ≤ longestWindow := by
  simp only [flaw?, Option.orElse_eq_orElse, Option.orElse_eq_or, Option.or_eq_none_iff] at h
  have hwindow : r.windowFlaw? = none := h.2.1
  unfold windowFlaw? at hwindow
  simp only [Millis.le_def, Millis.lt_def] at *
  split at hwindow
  · cases hwindow
  · split at hwindow
    · cases hwindow
    · split at hwindow
      · cases hwindow
      · omega

/-- The most windows that one instant can lie in, by arithmetic that refuses. -/
def Rule.windowsPerSample? (r : Rule) : Option Millis :=
  let offset := r.windowOffset.later 1
  ((r.windowSize.later 0).add? offset).bind fun sum =>
  (sum.sub? 1).bind fun dividend =>
    dividend.quot? offset

/-- For a rule without flaw the number of windows is not refused. -/
theorem Rule.exists_windowsPerSample? {r : Rule} (h : r.flaw? = none) :
    ∃ n, r.windowsPerSample? = some n ∧ n.val = r.windowsPerSample := by
  obtain ⟨hsize, hoffset⟩ := window_pos h
  obtain ⟨hlong, hlong'⟩ := window_le_longest h
  have hone : (1 : Millis).val = 1 := rfl
  have hlater : (r.windowSize.later 0).val = max r.windowSize.val 0 := Millis.later_val _ _
  have hlater' : (r.windowOffset.later 1).val = max r.windowOffset.val 1 := Millis.later_val _ _
  simp only [Millis.lt_def, Millis.le_def, Millis.zero_val] at hsize hoffset hlong hlong'
  have hbound : longestWindow.val = 31622400000 := rfl
  obtain ⟨sum, hsum, hsumval⟩ := Millis.exists_ofInt?
    (n := (r.windowSize.later 0).val + (r.windowOffset.later 1).val) (by omega) (by omega)
  obtain ⟨dividend, hdividend, hdividendval⟩ := Millis.exists_ofInt?
    (n := sum.val - (1 : Millis).val) (by omega) (by omega)
  have hnonneg : 0 ≤ dividend.val := by omega
  have hquotient : dividend.val.tdiv (r.windowOffset.later 1).val =
      dividend.val / (r.windowOffset.later 1).val := Int.tdiv_eq_ediv_of_nonneg hnonneg
  have hpositive : 0 < (r.windowOffset.later 1).val := by omega
  obtain ⟨n, hn, hnval⟩ := dividend.exists_div? hpositive
  have hquot : dividend.quot? (r.windowOffset.later 1) = some n := by
    rw [Millis.quot?, hquotient]
    exact hn
  refine ⟨n, ?_, ?_⟩
  · rw [windowsPerSample?, Millis.add?, hsum, Option.bind_some, Millis.sub?, hdividend,
      Option.bind_some, hquot]
  · rw [hnval, hdividendval, hsumval, hlater, hlater', hone]
    rfl

namespace WindowGrid

/-- The instants of a window, by its number and by arithmetic that refuses. -/
def spanAt? (g : WindowGrid) (k : Int) : Option Span :=
  (Millis.ofInt? k).bind fun index =>
  (index.mul? g.offset).bind fun distance =>
  (g.origin.add? distance).map fun start => ⟨start, start.satAdd g.size⟩

/-- The windows that hold an instant, by arithmetic that refuses. -/
def windowsContaining? (g : WindowGrid) (t : Millis) : Option (List Span) :=
  match g.elapsed? t with
  | none => some []
  | some elapsed =>
    (elapsed.div? g.offset).bind fun last =>
    (elapsed.sub? g.size).bind fun before =>
    (before.div? g.offset).bind fun quotient =>
    (quotient.add? 1).bind fun first =>
    ((indices (first.later 0).val last.val).mapM g.spanAt?).map fun spans =>
      spans.filter (·.contains t)

variable {g : WindowGrid} {t elapsed : Millis}

/-- A window between the origin and an instant starts on the clock. -/
theorem spanAt?_eq (hg : g.Proper) (helapsed : g.elapsed? t = some elapsed) {k : Int}
    (hk : k ∈ indices (g.firstIndex elapsed) (g.lastIndex elapsed)) :
    g.spanAt? k = some (g.spanAt k) := by
  obtain ⟨hnonneg, hstart⟩ := spanAt_of_mem_indices hg helapsed hk
  obtain ⟨hval, -⟩ := elapsed?_eq_some_iff.mp helapsed
  have hdistance : k * g.offset.val ≤ elapsed.val :=
    (Int.le_ediv_iff_mul_le hg.offset_pos).mp (mem_indices.mp hk).2
  have hpositive : 0 ≤ k * g.offset.val := Int.mul_nonneg hnonneg (Int.le_of_lt hg.offset_pos)
  have hindex : k ≤ k * g.offset.val := by
    have hone : (1 : Int) ≤ g.offset.val := hg.offset_pos
    have hmul := Int.mul_le_mul_of_nonneg_left hone hnonneg
    rwa [Int.mul_one] at hmul
  have hhigh := elapsed.le_last
  obtain ⟨index, hofIndex, hindexval⟩ := Millis.exists_ofInt? (n := k) (by omega) (by omega)
  obtain ⟨distance, hofDistance, hdistanceval⟩ := Millis.exists_ofInt?
    (n := index.val * g.offset.val) (by rw [hindexval]; omega) (by rw [hindexval]; omega)
  have hsum : g.origin.add? distance = some (g.spanAt k).start := by
    rw [Millis.add?, Millis.ofInt?_eq_some_iff, hstart, hdistanceval, hindexval]
  rw [spanAt?, hofIndex, Option.bind_some, Millis.mul?, hofDistance, Option.bind_some, hsum,
    Option.map_some]
  rfl

/-- On a proper grid no step is refused. -/
theorem windowsContaining?_eq (hg : g.Proper) (t : Millis) :
    g.windowsContaining? t = some (g.windowsContaining t) := by
  unfold windowsContaining? windowsContaining
  cases helapsed : g.elapsed? t with
  | none => rfl
  | some elapsed =>
    obtain ⟨-, hnonneg⟩ := elapsed?_eq_some_iff.mp helapsed
    have hval := (elapsed?_eq_some_iff.mp helapsed).1
    have hsize := hg.size_pos
    have hlow := g.size.le_last
    have hhigh := elapsed.le_last
    have hone : (1 : Millis).val = 1 := rfl
    obtain ⟨last, hlast, hlastval⟩ := elapsed.exists_div? hg.offset_pos
    obtain ⟨before, hbefore, hbeforeval⟩ := Millis.exists_ofInt? (n := elapsed.val - g.size.val)
      (by omega) (by omega)
    obtain ⟨quotient, hquotient, hquotientval⟩ := before.exists_div? hg.offset_pos
    have hquotientle : quotient.val < 9223372036854775807 := by
      rw [hquotientval]
      rcases Int.lt_or_le before.val 0 with hneg | hpos
      · have := Int.ediv_neg_of_neg_of_pos hneg hg.offset_pos
        omega
      · have := Int.ediv_le_self g.offset.val hpos
        omega
    have hquotientge := quotient.first_le
    obtain ⟨first, hfirst, hfirstval⟩ := Millis.exists_ofInt? (n := quotient.val + (1 : Millis).val)
      (by omega) (by omega)
    have hfirstIndex : (first.later 0).val = g.firstIndex elapsed := by
      rw [Millis.later_val, hfirstval, hquotientval, hbeforeval]
      rfl
    have hlastIndex : last.val = g.lastIndex elapsed := hlastval
    have hspans : (indices (g.firstIndex elapsed) (g.lastIndex elapsed)).mapM g.spanAt? =
        some ((indices (g.firstIndex elapsed) (g.lastIndex elapsed)).map g.spanAt) :=
      mapM_eq_some_map fun k hk => spanAt?_eq hg helapsed hk
    simp only
    rw [hlast, Option.bind_some, Millis.sub?, hbefore, Option.bind_some, hquotient,
      Option.bind_some, Millis.add?, hfirst, Option.bind_some, hfirstIndex, hlastIndex, hspans,
      Option.map_some]

/-- Windows at no distance from each other are refused, and so is a length whose windows would begin
behind the last instant. -/
example : windowsContaining? ⟨0, 1000, 0⟩ 5 = none ∧
    windowsContaining? ⟨0, Millis.first, 1⟩ 5 = none := by
  decide +kernel

end WindowGrid

namespace Aggregator

/-- Offers a sample to every window that holds its time, by arithmetic that refuses. -/
def add? (a : Aggregator) (t : Millis) (value : SampleValue) : Option (Aggregator × Admission) :=
  (a.grid.windowsContaining? t).map fun spans =>
    let sample : WindowSample := ⟨t, a.nextArrival, value⟩
    let (next, admission) :=
      spans.foldl (offer sample) ({ a with nextArrival := a.nextArrival + 1 }, ⟨0, 0, 0⟩)
    ({ next with counts := next.counts.add admission }, admission)

theorem add?_eq {a : Aggregator} (hg : a.grid.Proper) (t : Millis) (value : SampleValue) :
    a.add? t value = some (a.add t value) := by
  rw [add?, WindowGrid.windowsContaining?_eq hg, Option.map_some]
  rfl

end Aggregator

end TelemetryBands
