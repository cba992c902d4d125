import TelemetryBands.Proofs.Window.Contents
import TelemetryBands.Proofs.Window.Rearrangement

/-!
# Where the samples of windows come from

An aggregator *draws on* a list of samples if each open window holds some of them, in their order
and at times within the window. A sample that is added goes behind the others of a window or
nowhere, at most once into each; so the windows draw on the samples that were given, and closes are
made of these.
-/

namespace TelemetryBands

/-- A window holds samples from a list, in their order and at times within the window. -/
structure OpenWindow.DrawsOn (window : OpenWindow) (given : List Sample) : Prop where
  drawn : (window.samples.map WindowSample.sample).Sublist given
  within : ∀ s ∈ window.samples, window.span.contains s.time = true

namespace Aggregator

/-- Every open window holds samples from a list. -/
def DrawsOn (a : Aggregator) (given : List Sample) : Prop :=
  ∀ (s : Millis) (window : OpenWindow), a.openWindows.find? s = some window →
    window.DrawsOn given

variable {a : Aggregator} {given given' : List Sample} {t w : Millis} {value : SampleValue}

/-- Under a start an offered sample changes nothing, or goes behind the others of one window. -/
theorem find?_foldl_offer_cases (sample : WindowSample) {spans : List Span}
    (state : Aggregator × Admission)
    (hdistinct : spans.Pairwise fun a b => a.start ≠ b.start) (s : Millis) :
    let next := (spans.foldl (offer sample) state).1.openWindows.find? s
    next = state.1.openWindows.find? s ∨ ∃ span ∈ spans, span.start = s ∧
      next = let window := (state.1.openWindows.find? s).getD ⟨span, []⟩
        some { window with samples := window.samples ++ [sample] } := by
  induction spans generalizing state with
  | nil => exact .inl rfl
  | cons span spans ih =>
    obtain ⟨a, admission⟩ := state
    obtain ⟨hfirst, hrest⟩ := List.pairwise_cons.mp hdistinct
    simp only [List.foldl_cons]
    by_cases hstart : span.start = s
    · -- The later windows start elsewhere.
      have hlater : ∀ other ∈ spans, other.start = s →
          (offer sample (a, admission) span).1.hasReached other.stop = true :=
        fun other hother heq => absurd (hstart.trans heq.symm) (hfirst other hother)
      rw [find?_foldl_offer_of_late _ hlater]
      rcases offer_cases a sample admission span with
        ⟨-, hoffer⟩ | ⟨-, -, -, hoffer⟩ | ⟨-, hoffer⟩
      · exact .inl (by rw [hoffer])
      · exact .inl (by rw [hoffer])
      · refine .inr ⟨span, List.mem_cons_self, hstart, ?_⟩
        rw [hoffer, find?_place, if_pos hstart, hstart]
    · have hkeep : (offer sample (a, admission) span).1.openWindows.find? s =
          a.openWindows.find? s := by
        rcases offer_cases a sample admission span with
          ⟨-, hoffer⟩ | ⟨-, -, -, hoffer⟩ | ⟨-, hoffer⟩
        · rw [hoffer]
        · rw [hoffer]
        · rw [hoffer, find?_place, if_neg hstart]
      have hcases := ih (offer sample (a, admission) span) hrest
      rw [hkeep] at hcases
      rcases hcases with hsame | ⟨other, hother, hlater⟩
      · exact .inl hsame
      · exact .inr ⟨other, List.mem_cons_of_mem span hother, hlater⟩

/-- What holds of the open windows after a sample is added, if it holds of the windows before, of
those that are opened for the sample and of those that it goes into. -/
theorem Regular.forall_windows_add (hregular : a.Regular) {P Q : OpenWindow → Prop}
    (h : ∀ s window, a.openWindows.find? s = some window → P window)
    (kept : ∀ window, P window → Q window)
    (opened : ∀ span ∈ a.grid.windowsContaining t, Q ⟨span, [⟨t, a.nextArrival, value⟩]⟩)
    (grown : ∀ window, P window → window.span ∈ a.grid.windowsContaining t →
      Q { window with samples := window.samples ++ [⟨t, a.nextArrival, value⟩] }) :
    ∀ s window, (a.add t value).1.openWindows.find? s = some window → Q window := by
  intro s window hfind
  rcases find?_foldl_offer_cases ⟨t, a.nextArrival, value⟩
    ({ a with nextArrival := a.nextArrival + 1 }, ⟨0, 0, 0⟩)
    (WindowGrid.starts_differ hregular.proper t) s with
    hsame | ⟨span, hmem, rfl, hplaced⟩
  · exact kept window (h s window (hsame.symm.trans hfind))
  · obtain rfl := Option.some.inj (hplaced.symm.trans hfind)
    cases hold : a.openWindows.find? span.start with
    | none => exact opened span hmem
    | some old =>
      obtain ⟨hstart, hgrid⟩ := hregular.window hold
      have hspan : old.span = span :=
        hgrid.eq_of_start ((WindowGrid.mem_windowsContaining hregular.proper).mp hmem).1 hstart
      exact grown old (h _ _ hold) (hspan ▸ hmem)

theorem drawsOn_new (index : Nat) (rule : Rule) (origin : Millis) (maxOpen : Nat) :
    (new index rule origin maxOpen).DrawsOn given := by
  intro s window hfind
  cases hfind

namespace DrawsOn

theorem mono (h : a.DrawsOn given) (hsub : given.Sublist given') : a.DrawsOn given' :=
  fun s window hfind => ⟨(h s window hfind).drawn.trans hsub, (h s window hfind).within⟩

/-- With a sample the windows draw on the samples before it and on that one. -/
theorem add (h : a.DrawsOn given) (hregular : a.Regular) :
    (a.add t value).1.DrawsOn (given ++ [⟨t, value⟩]) := by
  have hcontains : ∀ span ∈ a.grid.windowsContaining t, span.contains t = true :=
    fun span hmem => ((WindowGrid.mem_windowsContaining hregular.proper).mp hmem).2.1
  refine hregular.forall_windows_add h ?_ ?_ ?_
  · exact fun window hwindow => ⟨hwindow.drawn.trans (List.sublist_append_left _ _), hwindow.within⟩
  · exact fun span hmem => ⟨List.sublist_append_right given _,
      List.forall_mem_singleton.mpr (hcontains span hmem)⟩
  · refine fun window hwindow hmem => ⟨?_, List.forall_mem_append.mpr
      ⟨hwindow.within, List.forall_mem_singleton.mpr (hcontains _ hmem)⟩⟩
    rw [List.map_append]
    exact hwindow.drawn.append (List.Sublist.refl _)

theorem closeThrough (h : a.DrawsOn given) (w : Millis) : (a.closeThrough w).1.DrawsOn given :=
  fun s window hfind => h s window (find?_of_closeThrough hfind)

theorem clear : a.clear.DrawsOn given := by
  intro s window hfind
  cases hfind

end DrawsOn

end Aggregator

end TelemetryBands
