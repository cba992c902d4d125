import Mathlib.Data.List.Nodup
import Mathlib.Data.List.Perm.Basic
import TelemetryBands.Proofs.Window.Latest

/-!
# Windows in another order of arrival

The last value, the count and the share of the matching samples do not depend on the order in which
the samples of a window arrived, as long as no two of them have one time. Only the reason for which
a window comes to no aggregate may change with the order: it names the first sample that is no
number.
-/

namespace TelemetryBands

/-- A sample of a window without its place in the order of arrival. -/
def WindowSample.sample (s : WindowSample) : Sample :=
  ⟨s.time, s.value⟩

/-- An aggregation that does not depend on the order of arrival. -/
def Aggregation.Unordered (a : Aggregation) : Prop :=
  a = .last ∨ a = .count ∨ ∃ threshold, a = .matching threshold

theorem toOption_map {ε α β : Type} (f : α → β) (x : Except ε α) :
    (x.map f).toOption = x.toOption.map f := by
  cases x <;> rfl

namespace WindowSample

/-- The numbers of a window are those of its samples, if all of them have one. -/
theorem toOption_numbers (samples : List WindowSample) :
    (numbers samples).toOption =
      if (samples.map sample).all fun s => s.value.toFloat?.isSome then
        some ((samples.map sample).filterMap fun s => s.value.toFloat?)
      else none := by
  induction samples with
  | nil => rfl
  | cons s samples ih =>
    rw [numbers] at ih
    rw [numbers, List.mapM_cons]
    simp only [List.map_cons, List.all_cons, List.filterMap_cons, sample, SampleValue.numeric]
    cases hvalue : s.value.toFloat? with
    | none => rfl
    | some x =>
      simp only [Option.isSome_some, Bool.true_and]
      have hcons : ∀ rest : Except Failure (List Float),
          (do let xs ← rest; pure (x :: xs) : Except Failure (List Float)).toOption =
            rest.toOption.map (x :: ·) := by
        intro rest
        cases rest <;> rfl
      have hstep := hcons (samples.mapM fun s => s.value.numeric)
      rw [ih] at hstep
      refine hstep.trans ?_
      split <;> rfl

/-- The numbers of a window in another order are the same numbers in another order. -/
theorem numbers_perm {samples samples' : List WindowSample}
    (h : (samples.map sample).Perm (samples'.map sample)) :
    ((numbers samples).toOption = none ∧ (numbers samples').toOption = none) ∨
      ∃ xs xs', (numbers samples).toOption = some xs ∧ (numbers samples').toOption = some xs' ∧
        xs.Perm xs' := by
  have hall := h.all_eq (f := fun s : Sample => s.value.toFloat?.isSome)
  rw [toOption_numbers, toOption_numbers, hall]
  split
  · exact Or.inr ⟨_, _, rfl, rfl, h.filterMap _⟩
  · exact Or.inl ⟨rfl, rfl⟩

/-- The latest samples of a window in two orders are the same sample. -/
theorem latest?_perm {samples samples' : List WindowSample} (hne : samples ≠ [])
    (h : (samples.map sample).Perm (samples'.map sample))
    (hnodup : ((samples.map sample).map Sample.time).Nodup) :
    ∃ s s', latest? samples = some s ∧ latest? samples' = some s' ∧ s.sample = s'.sample := by
  have hne' : samples' ≠ [] := by
    intro hnil
    rw [hnil, List.map_nil] at h
    exact hne (List.map_eq_nil_iff.mp h.eq_nil)
  obtain ⟨s, hmem, hlatest, hall⟩ := exists_latest? hne
  obtain ⟨s', hmem', hlatest', hall'⟩ := exists_latest? hne'
  have hs' : s'.sample ∈ samples.map sample := h.mem_iff.mpr (List.mem_map_of_mem hmem')
  have hs : s.sample ∈ samples'.map sample := h.mem_iff.mp (List.mem_map_of_mem hmem)
  obtain ⟨r', hr', hrs'⟩ := List.mem_map.mp hs'
  obtain ⟨r, hr, hrs⟩ := List.mem_map.mp hs
  have htime : s.time = s'.time := by
    have hle := precedes_iff.mp (hall r' hr')
    have hle' := precedes_iff.mp (hall' r hr)
    have hrtime : r.time = s.time := congrArg Sample.time hrs
    have hrtime' : r'.time = s'.time := congrArg Sample.time hrs'
    rw [hrtime'] at hle
    rw [hrtime] at hle'
    simp only [Millis.lt_def, Millis.ext_iff] at *
    omega
  have hsample : s.sample = s'.sample :=
    List.inj_on_of_nodup_map hnodup (List.mem_map_of_mem hmem) hs' htime
  exact ⟨s, s', hlatest, hlatest', hsample⟩

end WindowSample

/-- The share of the numbers in a band does not depend on their order. -/
theorem Aggregate.percentIn_perm (r : Rule) {xs xs' : List Float} (h : xs.Perm xs') :
    percentIn r xs = percentIn r xs' := by
  rw [percentIn, percentIn, h.countP_eq, h.length_eq]

/-- Samples of a window that a rule makes the same of: as many, and with the same outcome up to the
reason of a failure. -/
def Aggregate.Alike (r : Rule) (samples samples' : List WindowSample) : Prop :=
  samples.length = samples'.length ∧
    (ofSamples r samples).toOption = (ofSamples r samples').toOption

theorem Aggregate.Alike.symm {r : Rule} {samples samples' : List WindowSample}
    (h : Alike r samples samples') : Alike r samples' samples :=
  ⟨h.1.symm, h.2.symm⟩

/-- What the samples of a window come to, if anything, does not depend on their order. -/
theorem Aggregate.ofSamples_perm {r : Rule} (hr : r.aggregation.Unordered)
    {samples samples' : List WindowSample}
    (h : (samples.map WindowSample.sample).Perm (samples'.map WindowSample.sample))
    (hnodup : ((samples.map WindowSample.sample).map Sample.time).Nodup) :
    (ofSamples r samples).toOption = (ofSamples r samples').toOption := by
  by_cases hne : samples = []
  · have hnil : samples' = [] := by
      rw [hne, List.map_nil] at h
      exact List.map_eq_nil_iff.mp h.symm.eq_nil
    rw [hne, hnil]
  · obtain ⟨s, s', hlatest, hlatest', hsample⟩ := WindowSample.latest?_perm hne h hnodup
    simp only [ofSamples, hlatest, hlatest']
    rcases hr with hr | hr | ⟨threshold, hr⟩
    · have hvalue : s.value = s'.value := congrArg Sample.value hsample
      simp only [hr, hvalue]
    · have hlength : samples.length = samples'.length := by
        simpa using h.length_eq
      simp only [hr, hlength]
    · simp only [hr, toOption_map]
      rcases WindowSample.numbers_perm h with ⟨hnone, hnone'⟩ | ⟨xs, xs', hsome, hsome', hperm⟩
      · rw [hnone, hnone']
      · rw [hsome, hsome', Option.map_some, Option.map_some, percentIn_perm r hperm]

end TelemetryBands
