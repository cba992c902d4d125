import TelemetryBands.Proofs.Window.Closing

/-!
# Contents of open windows

An aggregator *keeps* an assignment of samples to windows if its open windows are exactly the
windows of its grid that own a sample and that the watermark has not passed, each with the samples
that it owns. Adding a sample extends the assignment by one receipt for each window that is still
open, and closing hands out what the watermark passes.
-/

namespace TelemetryBands.Aggregator

/-- What a window owns of a new sample: the sample, if the window holds its time and has not been
reached by the watermark. -/
def receipt (a : Aggregator) (t : Millis) (value : SampleValue) (span : Span) :
    List WindowSample :=
  if span.contains t ∧ a.grid.Reaches t ∧ a.hasReached span.stop = false then
    [⟨t, a.nextArrival, value⟩]
  else []

/-- The open windows are the windows that own a sample and have not been passed. -/
structure Keeps (a : Aggregator) (owned : Span → List WindowSample) : Prop where
  proper : a.grid.Proper
  find : ∀ {s : Millis} {window : OpenWindow}, a.openWindows.find? s = some window ↔
    window.span.start = s ∧ a.grid.Holds window.span ∧ window.samples = owned window.span ∧
      owned window.span ≠ [] ∧ ¬ a.HasPassed window.span

variable {a : Aggregator} {owned : Span → List WindowSample} {t w : Millis} {value : SampleValue}
  {span : Span}

/-- A new aggregator keeps the assignment that gives no window anything. -/
theorem keeps_new {index : Nat} {rule : Rule} {origin : Millis} {maxOpen : Nat}
    (hrule : rule.flaw? = none) : (new index rule origin maxOpen).Keeps fun _ => [] where
  proper := ⟨(Rule.window_pos hrule).1, (Rule.window_pos hrule).2⟩
  find := by
    intro s window
    simp [new]

theorem Keeps.regular (h : a.Keeps owned) : a.Regular where
  proper := h.proper
  window := fun hfind => ⟨(h.find.mp hfind).1, (h.find.mp hfind).2.1⟩
  pending := fun hfind => (h.find.mp hfind).2.2.2.2

/-- Placing a sample in a window of the grid that has not been passed keeps the windows regular. -/
theorem Regular.place (h : a.Regular) (sample : WindowSample) (hholds : a.grid.Holds span)
    (hopen : ¬ a.HasPassed span) : (a.place sample span).Regular where
  proper := h.proper
  window := by
    intro s window hfind
    rw [find?_place] at hfind
    split at hfind
    · rename_i hs
      obtain rfl := Option.some.inj hfind
      cases hold : a.openWindows.find? span.start with
      | none => exact ⟨hs, hholds⟩
      | some old => exact ⟨(h.window hold).1.trans hs, (h.window hold).2⟩
    · exact h.window hfind
  pending := by
    intro s window hfind
    rw [find?_place] at hfind
    split at hfind
    · obtain rfl := Option.some.inj hfind
      cases hold : a.openWindows.find? span.start with
      | none => exact hopen
      | some old =>
        have hpending : ¬ a.HasPassed old.span := h.pending hold
        exact hpending
    · exact h.pending hfind

theorem Regular.foldl_offer (sample : WindowSample) (spans : List Span)
    (state : Aggregator × Admission) (h : state.1.Regular)
    (hholds : ∀ span ∈ spans, state.1.grid.Holds span) :
    (spans.foldl (offer sample) state).1.Regular := by
  induction spans generalizing state with
  | nil => exact h
  | cons span spans ih =>
    obtain ⟨a, admission⟩ := state
    have hrest := fun span' hmem => hholds span' (List.mem_cons_of_mem span hmem)
    rw [List.foldl_cons]
    rcases offer_cases a sample admission span with
      ⟨-, hoffer⟩ | ⟨-, -, -, hoffer⟩ | ⟨hreached, hoffer⟩
    · rw [hoffer]
      exact ih _ h hrest
    · rw [hoffer]
      exact ih _ h hrest
    · have hspan := hholds span List.mem_cons_self
      have hopen : ¬ a.HasPassed span := by
        intro hpassed
        have hlate := hpassed.hasReached h.proper hspan
        rw [hreached] at hlate
        cases hlate
      rw [hoffer]
      exact ih _ (h.place sample hspan hopen) hrest

/-- Adding a sample keeps the windows regular, whether there is room for it or not. -/
theorem Regular.add (h : a.Regular) (t : Millis) (value : SampleValue) :
    (a.add t value).1.Regular := by
  have hstart : ({ a with nextArrival := a.nextArrival + 1 } : Aggregator).Regular :=
    ⟨h.proper, h.window, h.pending⟩
  have hfold := Regular.foldl_offer ⟨t, a.nextArrival, value⟩ (a.grid.windowsContaining t)
    ({ a with nextArrival := a.nextArrival + 1 }, ⟨0, 0, 0⟩) hstart
    (fun span hmem => ((WindowGrid.mem_windowsContaining h.proper).mp hmem).1)
  exact ⟨hfold.proper, hfold.window, hfold.pending⟩

theorem regular_new {index : Nat} {rule : Rule} {origin : Millis} {maxOpen : Nat}
    (hrule : rule.flaw? = none) : (new index rule origin maxOpen).Regular :=
  (keeps_new hrule).regular

theorem Regular.clear (h : a.Regular) : a.clear.Regular where
  proper := h.proper
  window := by
    intro s window hfind
    cases hfind
  pending := by
    intro s window hfind
    cases hfind

namespace Keeps

/-- What is found under the start of a window that has not been passed. -/
theorem find?_start (h : a.Keeps owned) (hholds : a.grid.Holds span) (hopen : ¬ a.HasPassed span) :
    ((a.openWindows.find? span.start).getD ⟨span, []⟩) = ⟨span, owned span⟩ := by
  cases hfind : a.openWindows.find? span.start with
  | none =>
    have hempty : owned span = [] := by
      by_contra hne
      have hsome : a.openWindows.find? span.start = some ⟨span, owned span⟩ :=
        h.find.mpr ⟨rfl, hholds, rfl, hne, hopen⟩
      rw [hfind] at hsome
      cases hsome
    rw [hempty]
    rfl
  | some window =>
    obtain ⟨hstart, hwindow, hsamples, -, -⟩ := h.find.mp hfind
    have hspan : window.span = span := hwindow.eq_of_start hholds hstart
    rw [Option.getD_some, ← hspan, ← hsamples]

/-- What is found under the start of an open window that takes a sample. -/
theorem find?_add_of_taken (h : a.Keeps owned) (hroom : (a.add t value).2.overflowed = 0)
    (hmem : span ∈ a.grid.windowsContaining t) (hreached : a.hasReached span.stop = false)
    {window : OpenWindow} :
    (a.add t value).1.openWindows.find? span.start = some window ↔
      window.span.start = span.start ∧ a.grid.Holds window.span ∧
        window.samples = owned window.span ++ a.receipt t value window.span ∧
          owned window.span ++ a.receipt t value window.span ≠ [] ∧
            ¬ a.HasPassed window.span := by
  obtain ⟨hholds, hcontains, hreaches⟩ := (WindowGrid.mem_windowsContaining h.proper).mp hmem
  have hopen : ¬ a.HasPassed span := by
    intro hpassed
    have hlate := hpassed.hasReached h.proper hholds
    rw [hreached] at hlate
    cases hlate
  have hreceipt : a.receipt t value span = [⟨t, a.nextArrival, value⟩] := by
    rw [receipt, if_pos ⟨hcontains, hreaches, hreached⟩]
  rw [find?_add_of_open a t value h.proper hroom hmem hreached, h.find?_start hholds hopen]
  simp only [Option.some.injEq]
  constructor
  · rintro rfl
    refine ⟨rfl, hholds, ?_, ?_, hopen⟩
    · rw [hreceipt]
    · rw [hreceipt]
      simp
  · rintro ⟨hstart, hwindow, hsamples, -, -⟩
    have hspan : window.span = span := hwindow.eq_of_start hholds hstart
    obtain ⟨span', samples⟩ := window
    simp only at hspan hsamples
    rw [hsamples, hspan, hreceipt]

/-- What is found under a key where no open window takes a sample. -/
theorem find?_add_of_left (h : a.Keeps owned) {s : Millis}
    (hleft : ¬ ∃ span ∈ a.grid.windowsContaining t,
      span.start = s ∧ a.hasReached span.stop = false) {window : OpenWindow} :
    (a.add t value).1.openWindows.find? s = some window ↔
      window.span.start = s ∧ a.grid.Holds window.span ∧
        window.samples = owned window.span ++ a.receipt t value window.span ∧
          owned window.span ++ a.receipt t value window.span ≠ [] ∧
            ¬ a.HasPassed window.span := by
  have hlate : ∀ span ∈ a.grid.windowsContaining t, span.start = s →
      a.hasReached span.stop = true := by
    intro span hmem hstart
    by_contra hreached
    exact hleft ⟨span, hmem, hstart, Bool.eq_false_iff.mpr hreached⟩
  have hreceipt : window.span.start = s → a.grid.Holds window.span →
      a.receipt t value window.span = [] := by
    intro hstart hholds
    apply if_neg
    rintro ⟨hcontains, hreaches, hreached⟩
    have hmem := (WindowGrid.mem_windowsContaining h.proper).mpr ⟨hholds, hcontains, hreaches⟩
    exact hleft ⟨_, hmem, hstart, hreached⟩
  rw [find?_add_of_late a t value hlate, h.find]
  constructor
  · rintro ⟨hstart, hholds, hrest⟩
    rw [hreceipt hstart hholds, List.append_nil]
    exact ⟨hstart, hholds, hrest⟩
  · rintro ⟨hstart, hholds, hrest⟩
    rw [hreceipt hstart hholds, List.append_nil] at hrest
    exact ⟨hstart, hholds, hrest⟩

/-- Adding a sample without overflow gives every window its receipt. -/
theorem add (h : a.Keeps owned) (hroom : (a.add t value).2.overflowed = 0) :
    (a.add t value).1.Keeps fun span => owned span ++ a.receipt t value span where
  proper := by
    rw [add_grid]
    exact h.proper
  find := by
    intro s window
    have hpassed : (a.add t value).1.HasPassed window.span ↔ a.HasPassed window.span := by
      simp only [HasPassed, add_closedThrough, add_grid]
    rw [add_grid, hpassed]
    by_cases htaken : ∃ span ∈ a.grid.windowsContaining t,
        span.start = s ∧ a.hasReached span.stop = false
    · obtain ⟨span, hmem, rfl, hreached⟩ := htaken
      exact h.find?_add_of_taken hroom hmem hreached
    · exact h.find?_add_of_left htaken

/-- Closing keeps the assignment. -/
theorem closeThrough (h : a.Keeps owned) (horigin : Millis.first < a.grid.origin) (w : Millis) :
    (a.closeThrough w).1.Keeps owned where
  proper := by
    rw [closeThrough_grid]
    exact h.proper
  find := by
    intro s window
    cases hreached : a.hasReached w with
    | true =>
      rw [closeThrough_of_reached hreached]
      exact h.find
    | false =>
      rw [h.regular.find?_closeThrough horigin hreached, h.find, closeThrough_grid,
        hasPassed_closeThrough hreached]
      constructor
      · rintro ⟨⟨hstart, hholds, hsamples, hne, -⟩, hend⟩
        exact ⟨hstart, hholds, hsamples, hne, by omega⟩
      · rintro ⟨hstart, hholds, hsamples, hne, hend⟩
        refine ⟨⟨hstart, hholds, hsamples, hne, ?_⟩, by omega⟩
        exact fun hpassed => hend (endOf_le_of_hasPassed hreached hpassed)

/-- A new watermark closes the windows that own a sample and that it is the first to pass, with the
samples that they own. -/
theorem mem_closeThrough (h : a.Keeps owned) (horigin : Millis.first < a.grid.origin)
    (hnew : a.hasReached w = false) {c : WindowClose} :
    c ∈ (a.closeThrough w).2 ↔
      ∃ span, a.grid.Holds span ∧ owned span ≠ [] ∧ ¬ a.HasPassed span ∧
        a.grid.endOf span ≤ w.val ∧ c = a.closeOf ⟨span, owned span⟩ := by
  rw [h.regular.mem_closeThrough horigin hnew]
  constructor
  · rintro ⟨s, window, hfind, hend, rfl⟩
    obtain ⟨hstart, hholds, hsamples, hne, hopen⟩ := h.find.mp hfind
    refine ⟨window.span, hholds, hne, hopen, hend, ?_⟩
    rw [← hsamples]
  · rintro ⟨span, hholds, hne, hopen, hend, rfl⟩
    exact ⟨span.start, ⟨span, owned span⟩, h.find.mpr ⟨rfl, hholds, rfl, hne, hopen⟩, hend, rfl⟩

end Keeps

end TelemetryBands.Aggregator
