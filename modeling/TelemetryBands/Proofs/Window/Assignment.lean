import Mathlib.Data.Rat.Floor
import TelemetryBands.Proofs.Window.Exactness

/-!
# The windows of an instant

Which windows `windowsContaining` lists for an instant, said in the integers behind the clock; how
many there can be; and when there is one at all. The greatest number is the length of the windows in
offsets, rounded up, which is what a rule without flaw calculates for itself.
-/

namespace TelemetryBands

/-- A quotient is rounded up by adding one less than the divisor before it is rounded down. -/
theorem Rule.windowsPerSample_eq {r : Rule} (h : r.flaw? = none) :
    r.windowsPerSample = ⌈(r.windowSize.val : ℚ) / r.windowOffset.val⌉ := by
  obtain ⟨hsize, hoffset⟩ := window_pos h
  simp only [Millis.lt_def, Millis.zero_val] at hsize hoffset
  have hpos : (0 : ℚ) < r.windowOffset.val := by exact_mod_cast hoffset
  have heq : r.windowsPerSample =
      (r.windowSize.val + r.windowOffset.val - 1) / r.windowOffset.val := by
    unfold windowsPerSample
    rw [max_eq_left hsize.le, max_eq_left (by omega : 1 ≤ r.windowOffset.val)]
  rw [heq]
  symm
  have hdiv := Int.mul_ediv_add_emod (r.windowSize.val + r.windowOffset.val - 1) r.windowOffset.val
  have hmod := Int.emod_nonneg (r.windowSize.val + r.windowOffset.val - 1) hoffset.ne'
  have hmod' := Int.emod_lt_of_pos (r.windowSize.val + r.windowOffset.val - 1) hoffset
  set n := (r.windowSize.val + r.windowOffset.val - 1) / r.windowOffset.val
  refine Int.ceil_eq_iff.mpr ⟨(lt_div_iff₀ hpos).mpr ?_, (div_le_iff₀ hpos).mpr ?_⟩
  · have : (n - 1) * r.windowOffset.val < r.windowSize.val := by
      rw [Int.sub_mul, Int.mul_comm n]
      omega
    exact_mod_cast this
  · have : r.windowSize.val ≤ n * r.windowOffset.val := by
      rw [Int.mul_comm]
      omega
    exact_mod_cast this

namespace WindowGrid

variable {g : WindowGrid} {t : Millis}

/-- The most windows that can hold one instant: their length in offsets, rounded up. -/
def depth (g : WindowGrid) : Int :=
  ⌈(g.size.val : ℚ) / g.offset.val⌉

theorem Proper.depth_pos (hg : g.Proper) : 0 < g.depth := by
  have hsize : (0 : ℚ) < g.size.val := by exact_mod_cast hg.size_pos
  have hoffset : (0 : ℚ) < g.offset.val := by exact_mod_cast hg.offset_pos
  exact Int.ceil_pos.mpr (div_pos hsize hoffset)

/-- So many offsets cover the length of a window. -/
theorem Proper.size_le_depth_mul (hg : g.Proper) : g.size.val ≤ g.depth * g.offset.val := by
  have hoffset : (0 : ℚ) < g.offset.val := by exact_mod_cast hg.offset_pos
  have hceil : (g.size.val : ℚ) / g.offset.val ≤ g.depth := Int.le_ceil _
  exact_mod_cast (div_le_iff₀ hoffset).mp hceil

/-- From the origin on the clock can show the distance that `Reaches` asks for. -/
theorem exists_distance_iff (horigin : g.origin.val ≤ t.val) :
    (∃ d : Millis, d.val = t.val - g.origin.val) ↔ g.Reaches t := by
  unfold Reaches
  constructor
  · rintro ⟨d, hd⟩
    have := d.le_last
    omega
  · intro hreaches
    exact ⟨Millis.clamp (t.val - g.origin.val), Millis.clamp_of_mem (by omega) hreaches⟩

theorem length_indices (first last : Int) :
    (indices first last).length = (last + 1 - first).toNat := by
  rw [indices, List.length_map, List.length_range]

/-- The first window that can hold an instant is less than `depth` windows before the last one. -/
theorem lastIndex_lt_firstIndex_add (hg : g.Proper) (elapsed : Millis) :
    g.lastIndex elapsed < g.firstIndex elapsed + g.depth := by
  have hcover := hg.size_le_depth_mul
  have hoffset := hg.offset_pos
  have hfirst : elapsed.val / g.offset.val - g.depth ≤
      (elapsed.val - g.size.val) / g.offset.val := by
    rw [← Int.sub_mul_ediv_right _ _ hoffset.ne']
    exact Int.ediv_le_ediv hoffset (by omega)
  unfold lastIndex firstIndex
  omega

/-- No instant lies in more than `depth` windows. -/
theorem length_windowsContaining_le (hg : g.Proper) (t : Millis) :
    ((g.windowsContaining t).length : Int) ≤ g.depth := by
  have hpos := hg.depth_pos
  unfold windowsContaining
  cases g.elapsed? t with
  | none => simpa using hpos.le
  | some elapsed =>
    have hspread := lastIndex_lt_firstIndex_add hg elapsed
    have hfilter := List.length_filter_le (·.contains t)
      ((indices (g.firstIndex elapsed) (g.lastIndex elapsed)).map g.spanAt)
    rw [List.length_map, length_indices] at hfilter
    simp only
    omega

/-- The windows listed for an instant, in integers. -/
theorem mem_windowsContaining_iff (hg : g.Proper) {span : Span} :
    span ∈ g.windowsContaining t ↔
      (∃ k : Nat, span.start.val = g.origin.val + k * g.offset.val) ∧
      span.stop.val = min (span.start.val + g.size.val) 9223372036854775807 ∧
      span.start.val ≤ t.val ∧ t.val < span.stop.val ∧
      ∃ d : Millis, d.val = t.val - g.origin.val := by
  have hcontains : span.contains t ↔ span.start.val ≤ t.val ∧ t.val < span.stop.val := by
    simp only [Span.contains, Bool.and_eq_true, decide_eq_true_eq, Millis.le_def, Millis.lt_def]
  rw [mem_windowsContaining hg, hcontains]
  constructor
  · rintro ⟨hholds, ⟨hstart, hstop⟩, hreaches⟩
    have horigin := hholds.origin_le hg
    exact ⟨hholds.start, hholds.stop_val hg, hstart, hstop,
      (exists_distance_iff (by omega)).mpr hreaches⟩
  · rintro ⟨⟨k, hk⟩, hend, hstart, hstop, hdistance⟩
    have hlow := span.start.first_le
    have hsize := hg.size_pos
    have hk' : 0 ≤ k * g.offset.val :=
      Int.mul_nonneg (Int.natCast_nonneg k) hg.offset_pos.le
    refine ⟨⟨⟨k, hk⟩, Millis.ext ?_⟩, ⟨hstart, hstop⟩,
      (exists_distance_iff (by omega)).mp hdistance⟩
    rw [Millis.satAdd_val]
    omega

/-- When windows leave no gaps, the last window that starts by an instant holds it, unless it is the
last instant of the clock. -/
theorem spanAt_lastIndex_mem (hg : g.Proper) (hgap : g.offset.val ≤ g.size.val) {elapsed : Millis}
    (helapsed : g.elapsed? t = some elapsed) (ht : t.val < 9223372036854775807) :
    g.spanAt (g.lastIndex elapsed) ∈ g.windowsContaining t := by
  obtain ⟨hval, hpos⟩ := elapsed?_eq_some_iff.mp helapsed
  have hoffset := hg.offset_pos
  have hdiv := Int.mul_ediv_add_emod elapsed.val g.offset.val
  have hmod := Int.emod_nonneg elapsed.val hoffset.ne'
  have hmod' := Int.emod_lt_of_pos elapsed.val hoffset
  have hindex : 0 ≤ g.lastIndex elapsed := Int.ediv_nonneg (by omega) hoffset.le
  obtain ⟨k, hk⟩ := Int.eq_ofNat_of_zero_le hindex
  have hmul : g.lastIndex elapsed * g.offset.val = elapsed.val - elapsed.val % g.offset.val := by
    rw [lastIndex, Int.mul_comm]
    omega
  have hmul' : 0 ≤ g.lastIndex elapsed * g.offset.val := Int.mul_nonneg hindex hoffset.le
  have horigin := g.origin.first_le
  have hstart : (g.spanAt (g.lastIndex elapsed)).start.val =
      g.origin.val + g.lastIndex elapsed * g.offset.val :=
    Millis.clamp_of_mem (by unfold startAt; omega) (by unfold startAt; omega)
  have hstop : (g.spanAt (g.lastIndex elapsed)).stop =
      (g.spanAt (g.lastIndex elapsed)).start.satAdd g.size := rfl
  have hstopval := Millis.satAdd_val (g.spanAt (g.lastIndex elapsed)).start g.size
  rw [← hstop] at hstopval
  refine (mem_windowsContaining_iff hg).mpr ⟨⟨k, ?_⟩, ?_, ?_, ?_, elapsed, hval⟩
  · rw [hstart, hk]
  all_goals omega

/-- The windows of an instant: exactly those that start a whole number of offsets after the origin,
end one length later or at the last instant of the clock, and hold the instant, ascending and each
once, as long as the clock can show how far the instant is from the origin, and none otherwise. No
step of the calculation leaves the clock. There are at most as many as the length of the windows
counts offsets, rounded up, which is the number that every rule without flaw calculates; and there
is at least one for every instant from the origin to the one before the last of the clock if the
windows leave no gaps. -/
theorem windows_are_assigned_exactly (g : WindowGrid) (t : Millis)
    (hsize : 0 < g.size.val) (hoffset : 0 < g.offset.val) :
    g.windowsContaining? t = some (g.windowsContaining t) ∧
    (g.windowsContaining t).Pairwise (fun a b => a.start.val < b.start.val) ∧
    (∀ span, span ∈ g.windowsContaining t ↔
      (∃ k : Nat, span.start.val = g.origin.val + k * g.offset.val) ∧
      span.stop.val = min (span.start.val + g.size.val) 9223372036854775807 ∧
      span.start.val ≤ t.val ∧ t.val < span.stop.val ∧
      ∃ d : Millis, d.val = t.val - g.origin.val) ∧
    ((¬ ∃ d : Millis, d.val = t.val - g.origin.val) → g.windowsContaining t = []) ∧
    ((g.windowsContaining t).length : Int) ≤ ⌈(g.size.val : ℚ) / g.offset.val⌉ ∧
    (∀ r : Rule, r.flaw? = none → ∃ n, r.windowsPerSample? = some n ∧
      n.val = r.windowsPerSample ∧
      r.windowsPerSample = ⌈(r.windowSize.val : ℚ) / r.windowOffset.val⌉) ∧
    (g.offset.val ≤ g.size.val → g.origin.val ≤ t.val → t.val < 9223372036854775807 →
      (∃ d : Millis, d.val = t.val - g.origin.val) → g.windowsContaining t ≠ []) := by
  have hg : g.Proper := ⟨hsize, hoffset⟩
  refine ⟨windowsContaining?_eq hg t, pairwise_windowsContaining hg t,
    fun span => mem_windowsContaining_iff hg, ?_, length_windowsContaining_le hg t, ?_, ?_⟩
  · intro hfar
    refine List.eq_nil_iff_forall_not_mem.mpr fun span hspan => hfar ?_
    obtain ⟨-, -, -, -, hdistance⟩ := (mem_windowsContaining_iff hg).mp hspan
    exact hdistance
  · intro r hr
    obtain ⟨n, hn, hnval⟩ := Rule.exists_windowsPerSample? hr
    exact ⟨n, hn, hnval, Rule.windowsPerSample_eq hr⟩
  · rintro hgap horigin hlast ⟨d, hd⟩
    exact List.ne_nil_of_mem
      (spanAt_lastIndex_mem hg hgap (elapsed?_eq_some_iff.mpr ⟨hd, by omega⟩) hlast)

/-- At the end of the clock three windows hold an instant, and the ends of two are cut off. -/
theorem windows_are_assigned_exactly_cut_off :
    let g : WindowGrid := ⟨9223372036854775000, 600, 250⟩
    (0 < g.size.val ∧ 0 < g.offset.val) ∧
    g.windowsContaining 9223372036854775550 =
      [⟨9223372036854775000, 9223372036854775600⟩, ⟨9223372036854775250, Millis.last⟩,
        ⟨9223372036854775500, Millis.last⟩] ∧
    (3 : Int) ≤ ⌈((600 : Int) : ℚ) / (250 : Int)⌉ := by
  have heval : (⟨9223372036854775000, 600, 250⟩ : WindowGrid).windowsContaining
      9223372036854775550 = [⟨9223372036854775000, 9223372036854775600⟩,
        ⟨9223372036854775250, Millis.last⟩, ⟨9223372036854775500, Millis.last⟩] := by
    decide +kernel
  obtain ⟨-, -, -, -, hlength, -, -⟩ := windows_are_assigned_exactly
    ⟨9223372036854775000, 600, 250⟩ 9223372036854775550 (by decide) (by decide)
  rw [heval] at hlength
  exact ⟨by decide, heval, hlength⟩

end WindowGrid

end TelemetryBands
