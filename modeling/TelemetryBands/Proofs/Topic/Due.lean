import Mathlib.Data.List.Perm.Basic
import TelemetryBands.Proofs.Topic.Advance

/-!
# The order of closes

A watermark gathers the closes of all rules and sorts them by the ends of their windows, and closes
of one end by the places of their rules. No two closes of a topic stand in the same place of this
order, so that a batch of closes is known by its members, and the batches of two watermarks follow
each other like the batch of the later watermark alone.
-/

namespace TelemetryBands.Pipeline

theorem closesBefore_iff {c d : WindowClose} :
    closesBefore c d = true ↔
      c.span.stop.val < d.span.stop.val ∨
        (c.span.stop = d.span.stop ∧ c.ruleIndex ≤ d.ruleIndex) := by
  simp [closesBefore, Millis.lt_def]

theorem closesBefore_trans (b c d : WindowClose) (h : closesBefore b c = true)
    (h' : closesBefore c d = true) : closesBefore b d = true := by
  rw [closesBefore_iff, Millis.ext_iff] at *
  omega

theorem closesBefore_total (c d : WindowClose) :
    (closesBefore c d || closesBefore d c) = true := by
  rw [Bool.or_eq_true_iff, closesBefore_iff, closesBefore_iff, Millis.ext_iff, Millis.ext_iff]
  omega

/-- Closes that come before each other stand in one place. -/
theorem place_eq_of_closesBefore {c d : WindowClose} (h : closesBefore c d = true)
    (h' : closesBefore d c = true) : c.span.stop = d.span.stop ∧ c.ruleIndex = d.ruleIndex := by
  rw [closesBefore_iff, Millis.ext_iff] at *
  omega

variable {p : Pipeline} {v w : Millis} {spec : TopicSpec}

/-- The closes of all rules, rule by rule. -/
def closes (p : Pipeline) (w : Millis) : List WindowClose :=
  p.aggregators.flatMap fun a => (a.closeThrough w).2

/-- The closes that are due are the closes of all rules in order. -/
theorem due_eq_mergeSort (p : Pipeline) (w : Millis) :
    p.due w = (p.closes w).mergeSort closesBefore := by
  have hclosed : (p.aggregators.map fun a => a.closeThrough w).flatMap Prod.snd = p.closes w := by
    rw [List.flatMap_map]
    rfl
  unfold due closeThrough
  rw [← hclosed]

/-- The closes that are due are the closes of all rules. -/
theorem due_perm (p : Pipeline) (w : Millis) : (p.due w).Perm (p.closes w) := by
  rw [due_eq_mergeSort]
  exact List.mergeSort_perm _ _

/-- The closes that are due stand in order. -/
theorem pairwise_due (p : Pipeline) (w : Millis) :
    (p.due w).Pairwise fun c d => closesBefore c d = true :=
  List.pairwise_mergeSort closesBefore_trans closesBefore_total _

/-- Closes that stand in order need no sorting. -/
theorem due_eq_closes (h : (p.closes w).Pairwise fun c d => closesBefore c d = true) :
    p.due w = p.closes w := by
  rw [due_eq_mergeSort]
  exact List.mergeSort_of_pairwise h

theorem mem_due {c : WindowClose} :
    c ∈ p.due w ↔ ∃ a ∈ p.aggregators, c ∈ (a.closeThrough w).2 := by
  rw [(p.due_perm w).mem_iff, closes, List.mem_flatMap]

namespace Regular

/-- The grids of the rules begin at the start of the topic. -/
theorem first_lt_origin (h : p.Regular spec) (hstart : spec.start ≠ some Millis.first)
    {a : Aggregator} (hmem : a ∈ p.aggregators) : Millis.first < a.grid.origin := by
  obtain ⟨i, hget⟩ := List.getElem?_of_mem hmem
  have hgrid := (h.place hget).2.2
  have horigin : a.grid.origin = spec.start.getD 0 := by rw [hgrid]
  rw [horigin]
  cases hspec : spec.start with
  | none => decide
  | some t =>
    have hne : t.val ≠ Millis.first.val := by
      intro heq
      rw [hspec, Millis.ext heq] at hstart
      exact hstart rfl
    have hlow := t.first_le
    simp only [Option.getD_some, Millis.lt_def, Millis.first_val] at *
    omega

/-- Every aggregator is that of a rule. -/
theorem rule_mem (h : p.Regular spec) {a : Aggregator} (hmem : a ∈ p.aggregators) :
    a.rule ∈ spec.ladder.rules := by
  obtain ⟨i, hget⟩ := List.getElem?_of_mem hmem
  exact List.mem_of_getElem? (h.place hget).1

/-- A close tells from which aggregator it is. -/
theorem eq_of_ruleIndex (h : p.Regular spec) {a b : Aggregator} (ha : a ∈ p.aggregators)
    (hb : b ∈ p.aggregators) (hindex : a.ruleIndex = b.ruleIndex) : a = b := by
  obtain ⟨i, hi⟩ := List.getElem?_of_mem ha
  obtain ⟨j, hj⟩ := List.getElem?_of_mem hb
  have hij : i = j := by rw [← (h.place hi).2.1, ← (h.place hj).2.1, hindex]
  rw [hij, hj] at hi
  exact (Option.some.inj hi).symm

/-- A close that is due is a close of a rule. -/
theorem ruleIndex_lt (h : p.Regular spec) {c : WindowClose} (hc : c ∈ p.due w) :
    c.ruleIndex < spec.ladder.rules.length := by
  obtain ⟨a, ha, hca⟩ := mem_due.mp hc
  obtain ⟨i, hi⟩ := List.getElem?_of_mem ha
  rw [Aggregator.ruleIndex_of_mem hca, (h.place hi).2.1, ← h.length_eq]
  exact (List.getElem?_eq_some_iff.mp hi).1

/-- On a topic that starts behind the first instant all windows start behind it. -/
theorem first_lt_of_mem_due (h : p.Regular spec) (hstart : spec.start ≠ some Millis.first)
    {c : WindowClose} (hc : c ∈ p.due w) : Millis.first < c.span.start := by
  obtain ⟨a, ha, hca⟩ := mem_due.mp hc
  exact (h.windows ha).first_lt_of_mem (h.first_lt_origin hstart ha) hca

/-- No two closes of a topic stand in one place of the order. -/
theorem eq_of_place (h : p.Regular spec) {c d : WindowClose} (hc : c ∈ p.due w) (hd : d ∈ p.due w)
    (hstop : c.span.stop = d.span.stop) (hindex : c.ruleIndex = d.ruleIndex) : c = d := by
  obtain ⟨a, ha, hca⟩ := mem_due.mp hc
  obtain ⟨b, hb, hdb⟩ := mem_due.mp hd
  have hab : a = b := by
    apply h.eq_of_ruleIndex ha hb
    rw [← Aggregator.ruleIndex_of_mem hca, ← Aggregator.ruleIndex_of_mem hdb, hindex]
  rw [← hab] at hdb
  have hpairwise := (h.windows ha).pairwise_closeThrough (w := w)
  have hnodup : ((a.closeThrough w).2.map fun c => c.span.stop).Nodup := by
    apply List.pairwise_map.mpr
    apply hpairwise.imp
    intro c d hlt heq
    rw [heq] at hlt
    omega
  exact List.inj_on_of_nodup_map hnodup hca hdb hstop

/-- No close is due twice. -/
theorem nodup_due (h : p.Regular spec) (w : Millis) : (p.due w).Nodup := by
  rw [(p.due_perm w).nodup_iff, closes, List.nodup_flatMap]
  constructor
  · intro a ha
    apply (h.windows ha).pairwise_closeThrough.imp
    intro c d hlt heq
    rw [heq] at hlt
    omega
  · rw [List.pairwise_iff_getElem]
    intro i j hi hj hij c hc hd
    have hindex := (h.place (List.getElem?_eq_getElem hi)).2.1
    have hindex' := (h.place (List.getElem?_eq_getElem hj)).2.1
    rw [← Aggregator.ruleIndex_of_mem hc] at hindex
    rw [← Aggregator.ruleIndex_of_mem hd] at hindex'
    omega

/-- A list of closes in order is the list of those that are due if it has the same members. -/
theorem eq_due (h : p.Regular spec) {l : List WindowClose}
    (hsorted : l.Pairwise fun c d => closesBefore c d = true) (hperm : l.Perm (p.due w)) :
    l = p.due w := by
  refine List.Perm.eq_of_pairwise ?_ hsorted (p.pairwise_due w) hperm
  intro c d hc hd hcd hdc
  obtain ⟨hstop, hindex⟩ := place_eq_of_closesBefore hcd hdc
  exact h.eq_of_place (hperm.mem_iff.mp hc) hd hstop hindex

end Regular

/-- The closes of the later of two watermarks are those of the earlier one and what that leaves. -/
theorem closes_perm (p : Pipeline) (hlt : v < w) :
    (p.closes v ++ (p.closed v).closes w).Perm (p.closes w) := by
  have hsplit : ∀ a : Aggregator, (a.closeThrough w).2 =
      (a.closeThrough v).2 ++ ((a.closeThrough v).1.closeThrough w).2 :=
    fun a => (a.closeThrough_closeThrough hlt).2
  have hlater : (p.closed v).closes w =
      p.aggregators.flatMap fun a => ((a.closeThrough v).1.closeThrough w).2 := by
    simp only [closes, closed, List.flatMap_map]
  have hwhole : p.closes w = p.aggregators.flatMap fun a =>
      (a.closeThrough v).2 ++ ((a.closeThrough v).1.closeThrough w).2 := by
    unfold closes
    congr 1
    funext a
    exact hsplit a
  rw [hwhole, hlater, closes]
  exact List.flatMap_append_perm _ _ _

/-- The batches of two watermarks, the later one second, are the batch of the later one alone. -/
theorem Regular.due_append (h : p.Regular spec) (hstart : spec.start ≠ some Millis.first)
    (hlt : v < w) : p.due v ++ (p.closed v).due w = p.due w := by
  have hclosed : (p.closed v).Regular spec := h.closeThrough v rfl rfl
  have hearly : ∀ c ∈ p.due v, c.span.stop ≤ v := by
    intro c hc
    obtain ⟨a, ha, hca⟩ := mem_due.mp hc
    exact ((h.windows ha).stop_of_mem hca (h.first_lt_of_mem_due hstart hc)).1
  have hlate : ∀ d ∈ (p.closed v).due w, v < d.span.stop := by
    intro d hd
    obtain ⟨b, hb, hdb⟩ := mem_due.mp hd
    have hreached : b.hasReached v = true := by
      obtain ⟨a, -, rfl⟩ := List.mem_map.mp hb
      exact a.hasReached_closeThrough_self v
    have hfirst := hclosed.first_lt_of_mem_due hstart hd
    exact ((hclosed.windows hb).stop_of_mem hdb hfirst).2 v hreached
  apply h.eq_due
  · refine List.pairwise_append.mpr ⟨p.pairwise_due v, (p.closed v).pairwise_due w, ?_⟩
    intro c hc d hd
    have hstop := hearly c hc
    have hstop' := hlate d hd
    rw [closesBefore_iff]
    rw [Millis.le_def] at hstop
    rw [Millis.lt_def] at hstop'
    omega
  · exact ((p.due_perm v).append ((p.closed v).due_perm w)).trans
      ((p.closes_perm hlt).trans (p.due_perm w).symm)

end TelemetryBands.Pipeline
