import TelemetryBands.Proofs.Window.Provenance

/-!
# Spoiled windows

Some samples *spoil* a window for a rule: for the last value a latest sample that is no number, for
the count none, and for every other function any sample that is no number. The open windows of an
aggregator are *filled*: they hold samples, in the order of arrival, and no two samples arrive at
once. So there is always a latest sample, and a filled window comes to no aggregate exactly if it
is spoiled.
-/

namespace TelemetryBands

/-- A text, a truth value, or a number that is not finite. -/
def SampleValue.NonNumeric : SampleValue → Prop
  | .number x => Decimal.isFinite x = false
  | .integer _ => False
  | .boolean _ => True
  | .text _ => True

theorem SampleValue.toFloat?_eq_none_iff {value : SampleValue} :
    value.toFloat? = none ↔ value.NonNumeric := by
  cases value with
  | number x =>
    simp only [toFloat?, NonNumeric]
    cases Decimal.isFinite x <;> simp
  | integer n => simp [toFloat?, NonNumeric]
  | boolean b => simp [toFloat?, NonNumeric]
  | text s => simp [toFloat?, NonNumeric]

/-- A sample that is later than all others of a window, or as late as some and arrived after
them. -/
structure WindowSample.Latest (s : WindowSample) (samples : List WindowSample) : Prop where
  mem : s ∈ samples
  greatest : ∀ other ∈ samples, other ≠ s →
    other.time < s.time ∨ (other.time = s.time ∧ other.arrival < s.arrival)

/-- The samples of a window that a rule makes no aggregate of. -/
def Aggregate.Spoiled (r : Rule) (samples : List WindowSample) : Prop :=
  match r.aggregation with
  | .last => ∃ s : WindowSample, s.Latest samples ∧ s.value.NonNumeric
  | .count => False
  | .avg | .sum | .min | .max | .matching _ => ∃ s ∈ samples, s.value.NonNumeric

/-- A window that holds some of the first samples that arrived, in their order. -/
structure OpenWindow.Filled (window : OpenWindow) (arrivals : Nat) : Prop where
  nonempty : window.samples ≠ []
  ascending : window.samples.Pairwise fun s s' => s.arrival < s'.arrival
  arrived : ∀ s ∈ window.samples, s.arrival < arrivals

namespace WindowSample

/-- No two samples of one window are the latest. -/
theorem Latest.unique {s s' : WindowSample} {samples : List WindowSample} (h : s.Latest samples)
    (h' : s'.Latest samples) : s = s' := by
  by_contra hne
  have hbefore := h'.greatest s h.mem hne
  have hafter := h.greatest s' h'.mem (Ne.symm hne)
  simp only [Millis.lt_def, Millis.ext_iff] at hbefore hafter
  omega

/-- The search for the latest sample finds it. -/
theorem exists_latest {samples : List WindowSample} (hne : samples ≠ [])
    (hascending : samples.Pairwise fun s s' => s.arrival < s'.arrival) :
    ∃ s : WindowSample, latest? samples = some s ∧ s.Latest samples := by
  obtain ⟨s, hmem, hlatest, hall⟩ := exists_latest? hne
  refine ⟨s, hlatest, hmem, fun other hother hdiffers => ?_⟩
  have hnodup : (samples.map WindowSample.arrival).Nodup :=
    List.pairwise_map.mpr (hascending.imp fun hlt => Nat.ne_of_lt hlt)
  have harrival : other.arrival ≠ s.arrival :=
    fun heq => hdiffers (List.inj_on_of_nodup_map hnodup hother hmem heq)
  rcases precedes_iff.mp (hall other hother) with hlt | ⟨htime, hle⟩
  · exact .inl hlt
  · exact .inr ⟨htime, Nat.lt_of_le_of_ne hle harrival⟩

/-- A window has all its numbers unless one sample has none. -/
theorem isOk_numbers {samples : List WindowSample} :
    (numbers samples).isOk = false ↔ ∃ s ∈ samples, s.value.NonNumeric := by
  have hisOk : (numbers samples).isOk = (numbers samples).toOption.isSome := by
    cases numbers samples <;> rfl
  rw [hisOk, toOption_numbers]
  split
  · rename_i hall
    simp only [List.all_map, List.all_eq_true, Function.comp_apply] at hall
    refine ⟨nofun, fun ⟨s, hs, hvalue⟩ => ?_⟩
    have hsome := hall s hs
    rw [sample, SampleValue.toFloat?_eq_none_iff.mpr hvalue] at hsome
    cases hsome
  · rename_i hall
    simp only [List.all_map, List.all_eq_true, Function.comp_apply, not_forall,
      Bool.not_eq_true, Option.isSome_eq_false_iff, Option.isNone_iff_eq_none] at hall
    obtain ⟨s, hs, hvalue⟩ := hall
    exact ⟨fun _ => ⟨s, hs, SampleValue.toFloat?_eq_none_iff.mp hvalue⟩, fun _ => rfl⟩

end WindowSample

theorem isOk_map {ε α β : Type} (f : α → β) (x : Except ε α) : (x.map f).isOk = x.isOk := by
  cases x <;> rfl

theorem SampleValue.isOk_numeric {value : SampleValue} :
    value.numeric.isOk = false ↔ value.NonNumeric := by
  rw [← toFloat?_eq_none_iff, numeric]
  cases value.toFloat? <;> simp [Except.isOk, Except.toBool]

/-- A window with samples in the order of arrival comes to no aggregate exactly if it is
spoiled. -/
theorem Aggregate.isOk_ofSamples {r : Rule} {samples : List WindowSample} (hne : samples ≠ [])
    (hascending : samples.Pairwise fun s s' => s.arrival < s'.arrival) :
    (ofSamples r samples).isOk = false ↔ Spoiled r samples := by
  obtain ⟨s, hlatest, hs⟩ := WindowSample.exists_latest hne hascending
  simp only [ofSamples, hlatest, Spoiled]
  cases r.aggregation with
  | last =>
    rw [isOk_map, SampleValue.isOk_numeric]
    exact ⟨fun hvalue => ⟨s, hs, hvalue⟩, fun ⟨s', hs', hvalue⟩ => hs'.unique hs ▸ hvalue⟩
  | count => simp [Except.isOk, Except.toBool]
  | avg | sum | min | max | matching threshold =>
    simp only [isOk_map]
    exact WindowSample.isOk_numbers

namespace Aggregator

/-- Every open window is filled with samples that were offered. -/
def Filled (a : Aggregator) : Prop :=
  ∀ s window, a.openWindows.find? s = some window → window.Filled a.nextArrival

variable {a : Aggregator}

theorem filled_new (index : Nat) (rule : Rule) (origin : Millis) (maxOpen : Nat) :
    (new index rule origin maxOpen).Filled := by
  intro s window hfind
  cases hfind

namespace Filled

/-- A new sample arrives after all others. -/
theorem add (h : a.Filled) (hregular : a.Regular) (t : Millis) (value : SampleValue) :
    (a.add t value).1.Filled := by
  unfold Filled
  rw [add_nextArrival]
  refine hregular.forall_windows_add h ?_ ?_ ?_
  · exact fun window hwindow => ⟨hwindow.nonempty, hwindow.ascending,
      fun s hs => Nat.lt_succ_of_lt (hwindow.arrived s hs)⟩
  · exact fun span _ => ⟨List.cons_ne_nil _ _, List.pairwise_singleton _ _,
      List.forall_mem_singleton.mpr (Nat.lt_succ_self _)⟩
  · refine fun window hwindow _ => ⟨by simp, ?_, ?_⟩
    · exact List.pairwise_append.mpr ⟨hwindow.ascending, List.pairwise_singleton _ _,
        fun s hs => List.forall_mem_singleton.mpr (hwindow.arrived s hs)⟩
    · exact List.forall_mem_append.mpr
        ⟨fun s hs => Nat.lt_succ_of_lt (hwindow.arrived s hs),
          List.forall_mem_singleton.mpr (Nat.lt_succ_self _)⟩

theorem closeThrough (h : a.Filled) (w : Millis) : (a.closeThrough w).1.Filled := by
  intro s window hfind
  rw [closeThrough_nextArrival]
  exact h s window (find?_of_closeThrough hfind)

theorem clear : a.clear.Filled := by
  intro s window hfind
  cases hfind

end Filled

/-- A close of filled windows fails exactly if its window is spoiled. -/
theorem Filled.exists_of_mem_closeThrough (h : a.Filled) {w : Millis} {c : WindowClose}
    (hc : c ∈ (a.closeThrough w).2) :
    ∃ s window, a.openWindows.find? s = some window ∧ c = a.closeOf window ∧
      (c.aggregate.isOk = false ↔ Aggregate.Spoiled a.rule window.samples) := by
  obtain ⟨s, window, hfind, rfl⟩ := Aggregator.exists_of_mem_closeThrough hc
  have hfilled := h s window hfind
  exact ⟨s, window, hfind, rfl, Aggregate.isOk_ofSamples hfilled.nonempty hfilled.ascending⟩

end Aggregator

end TelemetryBands
