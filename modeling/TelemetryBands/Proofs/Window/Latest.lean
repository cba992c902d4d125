import TelemetryBands.Proofs.Clock.Saturation
import TelemetryBands.Window.Aggregate

/-!
# The latest sample

Samples are ordered by their times, and those of one time by their arrival. The latest sample of a
window is its greatest in this order, and it alone decides the last value of the window.
-/

namespace TelemetryBands

namespace WindowSample

theorem precedes_iff {a b : WindowSample} :
    a.precedes b = true ↔ a.time < b.time ∨ (a.time = b.time ∧ a.arrival ≤ b.arrival) := by
  simp [precedes]

theorem precedes_refl (a : WindowSample) : a.precedes a = true :=
  precedes_iff.mpr (Or.inr ⟨rfl, Nat.le_refl _⟩)

theorem precedes_of_not {a b : WindowSample} (h : ¬ a.precedes b = true) : b.precedes a = true := by
  rw [precedes_iff] at *
  simp only [Millis.lt_def, Millis.ext_iff] at *
  omega

theorem precedes_trans {a b c : WindowSample} (h : a.precedes b = true)
    (h' : b.precedes c = true) : a.precedes c = true := by
  rw [precedes_iff] at *
  simp only [Millis.lt_def, Millis.ext_iff] at *
  omega

/-- The search for the latest sample ends with the greatest of those it has seen. -/
theorem foldl_latestOf (best : WindowSample) (samples : List WindowSample) :
    ∃ s ∈ best :: samples, samples.foldl latestOf (some best) = some s ∧
      ∀ other ∈ best :: samples, other.precedes s = true := by
  induction samples generalizing best with
  | nil => exact ⟨best, List.mem_cons_self, rfl, by simp [precedes_refl]⟩
  | cons next samples ih =>
    rw [List.foldl_cons, latestOf]
    by_cases hnext : best.precedes next = true
    · obtain ⟨s, hmem, hfold, hall⟩ := ih next
      refine ⟨s, List.mem_cons_of_mem _ hmem, by rw [if_pos hnext, hfold], ?_⟩
      intro other hother
      rcases List.mem_cons.mp hother with rfl | hother
      · exact precedes_trans hnext (hall next List.mem_cons_self)
      · exact hall other hother
    · obtain ⟨s, hmem, hfold, hall⟩ := ih best
      have hbest : best.precedes s = true := hall best List.mem_cons_self
      refine ⟨s, ?_, by rw [if_neg hnext, hfold], ?_⟩
      · rcases List.mem_cons.mp hmem with rfl | hmem
        · exact List.mem_cons_self
        · exact List.mem_cons_of_mem _ (List.mem_cons_of_mem _ hmem)
      · intro other hother
        rcases List.mem_cons.mp hother with rfl | hother
        · exact hbest
        · rcases List.mem_cons.mp hother with rfl | hother
          · exact precedes_trans (precedes_of_not hnext) hbest
          · exact hall other (List.mem_cons_of_mem _ hother)

/-- A window with samples has a latest one, which is among them and not before any of them. -/
theorem exists_latest? {samples : List WindowSample} (h : samples ≠ []) :
    ∃ s ∈ samples, latest? samples = some s ∧
      ∀ other ∈ samples, other.precedes s = true := by
  cases samples with
  | nil => exact absurd rfl h
  | cons best samples => exact foldl_latestOf best samples

end WindowSample

/-- The last value of a window is the number of its latest sample. -/
theorem Aggregate.ofSamples_last {r : Rule} {samples : List WindowSample}
    (hlast : r.aggregation = .last) (h : samples ≠ []) :
    ∃ s ∈ samples,
      (∀ other ∈ samples,
        other.time < s.time ∨ (other.time = s.time ∧ other.arrival ≤ s.arrival)) ∧
      ofSamples r samples = s.value.numeric.map .value := by
  obtain ⟨s, hmem, hlatest, hall⟩ := WindowSample.exists_latest? h
  refine ⟨s, hmem, fun other hother => WindowSample.precedes_iff.mp (hall other hother), ?_⟩
  simp only [ofSamples, hlatest, hlast]

end TelemetryBands
