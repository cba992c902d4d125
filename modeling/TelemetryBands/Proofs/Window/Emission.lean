import TelemetryBands.Proofs.Window.Contents

/-!
# Accounts of what was emitted

Beside what is still open stands what was handed out before. An aggregator *accounts* for an
assignment of samples to windows if every window that owns a sample is either open or was emitted,
the latter exactly if the watermark has passed it, and no window was emitted twice.
-/

namespace TelemetryBands.Aggregator

/-- The close of a window that owns a sample and has been passed. -/
def Emitted (a : Aggregator) (owned : Span → List WindowSample) (c : WindowClose) : Prop :=
  ∃ span, a.grid.Holds span ∧ owned span ≠ [] ∧ a.HasPassed span ∧
    c = a.closeOf ⟨span, owned span⟩

/-- The windows that own a sample are divided into those that are open and those that were emitted,
each of them once and with what it owns. -/
structure Accounts (a : Aggregator) (owned : Span → List WindowSample)
    (emitted : List WindowClose) : Prop where
  keeps : a.Keeps owned
  mem : ∀ {c : WindowClose}, c ∈ emitted ↔ a.Emitted owned c
  nodup : (emitted.map WindowClose.span).Nodup

variable {a : Aggregator} {owned : Span → List WindowSample} {emitted : List WindowClose}
  {t w : Millis} {value : SampleValue} {span : Span}

/-- A new aggregator has emitted nothing. -/
theorem accounts_new {index : Nat} {rule : Rule} {origin : Millis} {maxOpen : Nat}
    (hrule : rule.flaw? = none) : (new index rule origin maxOpen).Accounts (fun _ => []) [] where
  keeps := keeps_new hrule
  mem := by simp [Emitted]
  nodup := List.nodup_nil

/-- A window that has been passed gets nothing of a new sample. -/
theorem receipt_of_hasPassed (hg : a.grid.Proper) (hholds : a.grid.Holds span)
    (hpassed : a.HasPassed span) : a.receipt t value span = [] := by
  have hreached := hpassed.hasReached hg hholds
  apply if_neg
  rintro ⟨-, -, hopen⟩
  rw [hreached] at hopen
  cases hopen

/-- Adding a sample leaves what was emitted as it is. -/
theorem Keeps.emitted_add (h : a.Keeps owned) {c : WindowClose} :
    (a.add t value).1.Emitted (fun span => owned span ++ a.receipt t value span) c ↔
      a.Emitted owned c := by
  have hpassed : ∀ span, (a.add t value).1.HasPassed span ↔ a.HasPassed span := by
    intro span
    simp only [HasPassed, add_closedThrough, add_grid]
  have hclose : ∀ window, (a.add t value).1.closeOf window = a.closeOf window := by
    intro window
    simp only [closeOf, add_ruleIndex, add_rule]
  simp only [Emitted, add_grid, hpassed, hclose]
  refine exists_congr fun span => and_congr_right fun hholds => ?_
  constructor
  · rintro ⟨hne, hspan, hc⟩
    rw [receipt_of_hasPassed h.proper hholds hspan, List.append_nil] at hne hc
    exact ⟨hne, hspan, hc⟩
  · rintro ⟨hne, hspan, hc⟩
    rw [receipt_of_hasPassed h.proper hholds hspan, List.append_nil]
    exact ⟨hne, hspan, hc⟩

/-- Closing adds to what was emitted the windows that it hands out. -/
theorem Keeps.emitted_closeThrough (h : a.Keeps owned) (horigin : Millis.first < a.grid.origin)
    (w : Millis) {c : WindowClose} :
    (a.closeThrough w).1.Emitted owned c ↔ a.Emitted owned c ∨ c ∈ (a.closeThrough w).2 := by
  cases hreached : a.hasReached w with
  | true =>
    rw [closeThrough_of_reached hreached]
    simp
  | false =>
    have hclose : ∀ window, (a.closeThrough w).1.closeOf window = a.closeOf window := by
      intro window
      simp only [closeOf, closeThrough_ruleIndex, closeThrough_rule]
    simp only [Emitted, h.mem_closeThrough horigin hreached, hasPassed_closeThrough hreached,
      closeThrough_grid, hclose]
    constructor
    · rintro ⟨span, hholds, hne, hend, hc⟩
      by_cases hpassed : a.HasPassed span
      · exact Or.inl ⟨span, hholds, hne, hpassed, hc⟩
      · exact Or.inr ⟨span, hholds, hne, hpassed, hend, hc⟩
    · rintro (⟨span, hholds, hne, hpassed, hc⟩ | ⟨span, hholds, hne, -, hend, hc⟩)
      · exact ⟨span, hholds, hne, endOf_le_of_hasPassed hreached hpassed, hc⟩
      · exact ⟨span, hholds, hne, hend, hc⟩

namespace Accounts

/-- Adding a sample without overflow leaves what was emitted as it is. -/
theorem add (h : a.Accounts owned emitted) (hroom : (a.add t value).2.overflowed = 0) :
    (a.add t value).1.Accounts (fun span => owned span ++ a.receipt t value span) emitted where
  keeps := h.keeps.add hroom
  mem := h.mem.trans h.keeps.emitted_add.symm
  nodup := h.nodup

/-- What a watermark closes was not emitted before. -/
theorem disjoint_closeThrough (h : a.Accounts owned emitted)
    (horigin : Millis.first < a.grid.origin) (hnew : a.hasReached w = false) :
    ∀ c ∈ emitted, ∀ d ∈ (a.closeThrough w).2, c.span ≠ d.span := by
  intro c hc d hd hspan
  obtain ⟨span, -, -, hpassed, rfl⟩ := h.mem.mp hc
  obtain ⟨span', -, -, hopen, -, rfl⟩ := (h.keeps.mem_closeThrough horigin hnew).mp hd
  have heq : span = span' := hspan
  rw [heq] at hpassed
  exact hopen hpassed

/-- Closing moves the windows that the watermark passes to those that were emitted. -/
theorem closeThrough (h : a.Accounts owned emitted) (horigin : Millis.first < a.grid.origin)
    (w : Millis) :
    (a.closeThrough w).1.Accounts owned (emitted ++ (a.closeThrough w).2) where
  keeps := h.keeps.closeThrough horigin w
  mem := by
    intro c
    rw [h.keeps.emitted_closeThrough horigin w, List.mem_append, h.mem]
  nodup := by
    rw [List.map_append]
    cases hreached : a.hasReached w with
    | true =>
      rw [closeThrough_of_reached hreached, List.map_nil, List.append_nil]
      exact h.nodup
    | false =>
      have hclosed : ((a.closeThrough w).2.map WindowClose.span).Nodup := by
        apply List.pairwise_map.mpr
        apply h.keeps.regular.pairwise_closeThrough.imp
        intro c d hlt hspan
        rw [hspan] at hlt
        omega
      refine List.nodup_append.mpr ⟨h.nodup, hclosed, ?_⟩
      intro span hspan span' hspan' heq
      obtain ⟨c, hc, rfl⟩ := List.mem_map.mp hspan
      obtain ⟨d, hd, rfl⟩ := List.mem_map.mp hspan'
      exact h.disjoint_closeThrough horigin hreached c hc d hd heq

end Accounts

end TelemetryBands.Aggregator
