import TelemetryBands.Proofs.Collections.Entries
import TelemetryBands.Proofs.Window.Grid
import TelemetryBands.Window.Aggregator

/-!
# Admission of samples

What `add` does to an aggregator, said once: which fields it leaves alone, how the admission counts
the windows of the sample, and what is found under every start afterwards.
-/

namespace TelemetryBands.Aggregator

variable {a : Aggregator} {sample : WindowSample} {span : Span} {admission : Admission}

theorem hasReached_iff {t : Millis} :
    a.hasReached t = true ↔ ∃ w, a.closedThrough = some w ∧ t.val ≤ w.val := by
  simp [hasReached, Option.any_eq_true, Millis.le_def]

/-- What can become of a sample in one of its windows, with the reason. -/
theorem offer_cases (a : Aggregator) (sample : WindowSample) (admission : Admission) (span : Span) :
    (a.hasReached span.stop = true ∧
      offer sample (a, admission) span = (a, { admission with late := admission.late + 1 })) ∨
    (a.hasReached span.stop = false ∧ a.openWindows.contains span.start = false ∧
      a.maxOpen ≤ a.openWindows.size ∧
      offer sample (a, admission) span =
        (a, { admission with overflowed := admission.overflowed + 1 })) ∨
    (a.hasReached span.stop = false ∧
      offer sample (a, admission) span =
        (a.place sample span, { admission with accepted := admission.accepted + 1 })) := by
  cases hreached : a.hasReached span.stop with
  | true =>
    left
    simp [offer, judge, hreached]
  | false =>
    right
    by_cases hfull : (!a.openWindows.contains span.start && a.maxOpen ≤ a.openWindows.size) = true
    · left
      simp only [Bool.and_eq_true, Bool.not_eq_true', decide_eq_true_eq] at hfull
      simp [offer, judge, hreached, hfull]
    · right
      simp only [offer, judge, hreached, Bool.false_eq_true, if_false, if_neg hfull, and_self]

/-- Offering a sample to windows changes nothing of an aggregator but its open windows. -/
theorem foldl_offer_frame (sample : WindowSample) (spans : List Span)
    (state : Aggregator × Admission) :
    (spans.foldl (offer sample) state).1 =
      { state.1 with openWindows := (spans.foldl (offer sample) state).1.openWindows } := by
  induction spans generalizing state with
  | nil => rfl
  | cons span spans ih =>
    obtain ⟨a, admission⟩ := state
    rw [List.foldl_cons, ih]
    rcases offer_cases a sample admission span with
      ⟨-, hoffer⟩ | ⟨-, -, -, hoffer⟩ | ⟨-, hoffer⟩
    · rw [hoffer]
    · rw [hoffer]
    · rw [hoffer]
      rfl

/-- Every window that a sample is offered to is counted once. -/
theorem foldl_offer_admission (sample : WindowSample) (spans : List Span)
    (state : Aggregator × Admission) :
    (spans.foldl (offer sample) state).2.late =
        state.2.late + spans.countP (fun span => state.1.hasReached span.stop) ∧
      state.2.overflowed ≤ (spans.foldl (offer sample) state).2.overflowed ∧
      (spans.foldl (offer sample) state).2.accepted + (spans.foldl (offer sample) state).2.late +
          (spans.foldl (offer sample) state).2.overflowed =
        state.2.accepted + state.2.late + state.2.overflowed + spans.length := by
  induction spans generalizing state with
  | nil => simp
  | cons span spans ih =>
    obtain ⟨a, admission⟩ := state
    obtain ⟨hlate, hoverflowed, htotal⟩ := ih (offer sample (a, admission) span)
    simp only [List.foldl_cons, List.countP_cons, List.length_cons]
    have hframe : ∀ t, (offer sample (a, admission) span).1.hasReached t = a.hasReached t := by
      intro t
      have := foldl_offer_frame sample [span] (a, admission)
      rw [List.foldl_cons, List.foldl_nil] at this
      rw [this]
      rfl
    simp only [hframe] at hlate
    rcases offer_cases a sample admission span with
      ⟨hreached, hoffer⟩ | ⟨hreached, -, -, hoffer⟩ | ⟨hreached, hoffer⟩ <;>
    · rw [hoffer] at hlate hoverflowed htotal ⊢
      simp only [hreached, if_true, Bool.false_eq_true, if_false] at *
      omega

/-- Placing a sample is seen under the start of its window only. -/
theorem find?_place (a : Aggregator) (sample : WindowSample) (span : Span) (s : Millis) :
    (a.place sample span).openWindows.find? s =
      if span.start = s then
        let window := (a.openWindows.find? span.start).getD ⟨span, []⟩
        some { window with samples := window.samples ++ [sample] }
      else a.openWindows.find? s := by
  unfold place
  rw [OrderedMap.find?_insert]

/-- Where none of the offered windows starts that is still open, nothing changes. -/
theorem find?_foldl_offer_of_late {sample : WindowSample} {spans : List Span} {s : Millis}
    (state : Aggregator × Admission)
    (h : ∀ span ∈ spans, span.start = s → state.1.hasReached span.stop = true) :
    (spans.foldl (offer sample) state).1.openWindows.find? s = state.1.openWindows.find? s := by
  induction spans generalizing state with
  | nil => rfl
  | cons span spans ih =>
    obtain ⟨a, admission⟩ := state
    have hhead := h span List.mem_cons_self
    have htail := fun span' hmem => h span' (List.mem_cons_of_mem span hmem)
    rw [List.foldl_cons]
    rcases offer_cases a sample admission span with
      ⟨-, hoffer⟩ | ⟨-, -, -, hoffer⟩ | ⟨hreached, hoffer⟩
    · rw [hoffer]
      exact ih _ htail
    · rw [hoffer]
      exact ih _ htail
    · have hstart : span.start ≠ s := by
        intro hs
        have hlate := hhead hs
        rw [hreached] at hlate
        cases hlate
      have hplace : ((a.place sample span).openWindows).find? s = a.openWindows.find? s := by
        rw [find?_place, if_neg hstart]
      rw [hoffer]
      refine Eq.trans (ih _ ?_) hplace
      exact htail

/-- Without overflow, a sample is put behind the others of every offered window that is still
open. -/
theorem find?_foldl_offer_of_open {sample : WindowSample} {spans : List Span} {span : Span}
    (state : Aggregator × Admission)
    (hdistinct : spans.Pairwise fun a b => a.start ≠ b.start)
    (hroom : (spans.foldl (offer sample) state).2.overflowed = state.2.overflowed)
    (hmem : span ∈ spans) (hopen : state.1.hasReached span.stop = false) :
    (spans.foldl (offer sample) state).1.openWindows.find? span.start =
      let window := (state.1.openWindows.find? span.start).getD ⟨span, []⟩
      some { window with samples := window.samples ++ [sample] } := by
  induction spans generalizing state with
  | nil => cases hmem
  | cons head spans ih =>
    obtain ⟨a, admission⟩ := state
    obtain ⟨hhead, hrest⟩ := List.pairwise_cons.mp hdistinct
    have hgrows := (foldl_offer_admission sample spans (offer sample (a, admission) head)).2.1
    rw [List.foldl_cons] at hroom ⊢
    rcases List.mem_cons.mp hmem with rfl | hmem
    · -- The window itself: the later offers leave its start alone.
      have hlater : ∀ other ∈ spans, other.start = span.start →
          (offer sample (a, admission) span).1.hasReached other.stop = true := by
        intro other hother hstart
        exact absurd hstart.symm (hhead other hother)
      rw [find?_foldl_offer_of_late _ hlater]
      rcases offer_cases a sample admission span with
        ⟨hreached, -⟩ | ⟨-, -, -, hoffer⟩ | ⟨-, hoffer⟩
      · rw [hopen] at hreached
        cases hreached
      · rw [hoffer] at hroom hgrows
        simp only at hroom hgrows
        omega
      · rw [hoffer, find?_place, if_pos rfl]
    · have hstart : head.start ≠ span.start := hhead span hmem
      rcases offer_cases a sample admission head with
        ⟨-, hoffer⟩ | ⟨-, -, -, hoffer⟩ | ⟨-, hoffer⟩
      · rw [hoffer] at hroom ⊢
        exact ih _ hrest hroom hmem hopen
      · rw [hoffer] at hroom hgrows
        simp only at hroom hgrows
        omega
      · rw [hoffer] at hroom ⊢
        rw [ih _ hrest hroom hmem hopen, find?_place, if_neg hstart]

section Add

variable (a : Aggregator) (t : Millis) (value : SampleValue)

/-- Adding a sample moves the arrival number on, counts the admission and touches open windows. -/
theorem add_frame :
    (a.add t value).1 =
      { a with
        openWindows := (a.add t value).1.openWindows
        nextArrival := a.nextArrival + 1
        counts := a.counts.add (a.add t value).2 } := by
  simp only [add]
  have hframe := foldl_offer_frame ⟨t, a.nextArrival, value⟩ (a.grid.windowsContaining t)
    ({ a with nextArrival := a.nextArrival + 1 }, ⟨0, 0, 0⟩)
  rw [hframe]

@[simp] theorem add_ruleIndex : (a.add t value).1.ruleIndex = a.ruleIndex := by
  rw [add_frame]

@[simp] theorem add_rule : (a.add t value).1.rule = a.rule := by
  rw [add_frame]

@[simp] theorem add_grid : (a.add t value).1.grid = a.grid := by
  rw [add_frame]

@[simp] theorem add_maxOpen : (a.add t value).1.maxOpen = a.maxOpen := by
  rw [add_frame]

@[simp] theorem add_closedThrough : (a.add t value).1.closedThrough = a.closedThrough := by
  rw [add_frame]

@[simp] theorem add_nextArrival : (a.add t value).1.nextArrival = a.nextArrival + 1 := by
  rw [add_frame]

/-- Samples close no window. -/
theorem windowsClosed_add :
    (a.add t value).1.counts.windowsClosed = a.counts.windowsClosed := by
  rw [add_frame]
  rfl

/-- The windows of a sample that had closed are those whose end the watermark has reached. -/
theorem add_late :
    (a.add t value).2.late =
      (a.grid.windowsContaining t).countP fun span => a.hasReached span.stop := by
  have h := (foldl_offer_admission ⟨t, a.nextArrival, value⟩ (a.grid.windowsContaining t)
    ({ a with nextArrival := a.nextArrival + 1 }, ⟨0, 0, 0⟩)).1
  rw [Nat.zero_add] at h
  exact h

theorem find?_add_of_late {s : Millis}
    (h : ∀ span ∈ a.grid.windowsContaining t, span.start = s → a.hasReached span.stop = true) :
    (a.add t value).1.openWindows.find? s = a.openWindows.find? s :=
  find?_foldl_offer_of_late ({ a with nextArrival := a.nextArrival + 1 }, ⟨0, 0, 0⟩) h

theorem find?_add_of_open (hg : a.grid.Proper) (hroom : (a.add t value).2.overflowed = 0)
    (hmem : span ∈ a.grid.windowsContaining t) (hopen : a.hasReached span.stop = false) :
    (a.add t value).1.openWindows.find? span.start =
      let window := (a.openWindows.find? span.start).getD ⟨span, []⟩
      some { window with samples := window.samples ++ [⟨t, a.nextArrival, value⟩] } :=
  find?_foldl_offer_of_open ({ a with nextArrival := a.nextArrival + 1 }, ⟨0, 0, 0⟩)
    (WindowGrid.starts_differ hg t) hroom hmem hopen

end Add

end TelemetryBands.Aggregator
