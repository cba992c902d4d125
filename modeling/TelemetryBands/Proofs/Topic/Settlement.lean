import TelemetryBands.Proofs.Topic.Ticking
import TelemetryBands.Proofs.Window.Emission
import TelemetryBands.Proofs.Window.Rearrangement

/-!
# Settled closes

A topic whose aggregators have all seen its watermark has *settled* a list of closes if these are
the windows that own a sample and that the watermark has passed, in the order of evaluation, and if
its standing and its published events are what the judgement of these closes comes to. So what a
topic has published is known from its watermark and from what its windows own, whatever the batches
were in which they were closed.
-/

namespace TelemetryBands

/-- A close without the reason for which it came to no aggregate. -/
def WindowClose.blurred (c : WindowClose) : WindowClose :=
  { c with
    aggregate :=
      match c.aggregate.toOption with
      | some aggregate => .ok aggregate
      | none => .error Aggregate.emptyWindow }

/-- The order of evaluation. -/
def WindowClose.Precedes (c d : WindowClose) : Prop :=
  c.span.stop.val < d.span.stop.val ∨ (c.span.stop = d.span.stop ∧ c.ruleIndex < d.ruleIndex)

instance : Std.Irrefl WindowClose.Precedes where
  irrefl c := by
    simp [WindowClose.Precedes]

instance : Std.Asymm WindowClose.Precedes where
  asymm c d := by
    simp only [WindowClose.Precedes, Millis.ext_iff]
    omega

/-- The reasons for which closes come to no aggregate have no part in what is published. -/
theorem Standing.judge_blurred (s : Standing) (l : Ladder) (c : WindowClose) (p : Pipeline)
    (w : Millis) :
    (s.judge l c.blurred).1 = (s.judge l c).1 ∧
      p.eventFor? w (c.blurred, (s.judge l c.blurred).2) =
        p.eventFor? w (c, (s.judge l c).2) := by
  obtain ⟨index, span, count, aggregate⟩ := c
  simp only [judge, WindowClose.blurred]
  cases l.rules[index]? with
  | none => exact ⟨rfl, rfl⟩
  | some rule =>
    cases aggregate with
    | error failure => exact ⟨rfl, rfl⟩
    | ok aggregate => exact ⟨rfl, rfl⟩

theorem Standing.judgeAll_blurred (s : Standing) (l : Ladder) (closes : List WindowClose)
    (p : Pipeline) (w : Millis) :
    (s.judgeAll l (closes.map WindowClose.blurred)).1 = (s.judgeAll l closes).1 ∧
      (p.effectOf w (s.judgeAll l (closes.map WindowClose.blurred)).2).events =
        (p.effectOf w (s.judgeAll l closes).2).events := by
  induction closes generalizing s with
  | nil => exact ⟨rfl, rfl⟩
  | cons c closes ih =>
    obtain ⟨hstanding, hevent⟩ := s.judge_blurred l c p w
    obtain ⟨hrest, hevents⟩ := ih (s.judge l c).1
    rw [List.map_cons, judgeAll_cons, judgeAll_cons, hstanding]
    refine ⟨hrest, ?_⟩
    simp only [Pipeline.effectOf, List.filterMap_cons, hevent] at hevents ⊢
    rw [hevents]

namespace Pipeline

/-- A topic that began as `p₀` has settled closes and published events. -/
structure Settles (p₀ p : Pipeline) (owned : WindowGrid → Span → List WindowSample)
    (settled : List WindowClose) (published : List Event) : Prop where
  name_eq : p.name = p₀.name
  endpoint_eq : p.endpoint = p₀.endpoint
  alive : p.deleted = false
  regular : p.Regular p₀.spec
  closedThrough_eq : ∀ {a : Aggregator}, a ∈ p.aggregators → a.closedThrough = p.watermark
  keeps : ∀ {a : Aggregator}, a ∈ p.aggregators → a.Keeps (owned a.grid)
  mem : ∀ {c : WindowClose},
    c ∈ settled ↔ ∃ a ∈ p.aggregators, a.Emitted (owned a.grid) c
  sorted : settled.Pairwise WindowClose.Precedes
  standing_eq : p.standing = (p₀.standing.judgeAll p₀.spec.ladder settled).1
  published_eq : published.map Event.undated =
    (p₀.effectOf 0 (p₀.standing.judgeAll p₀.spec.ladder settled).2).events.map Event.undated

/-- The closes that a watermark evaluates. -/
def evaluated (p : Pipeline) (w : Millis) : List WindowClose :=
  if p.skips w then [] else p.due w

variable {p₀ p q : Pipeline} {owned owned' : WindowGrid → Span → List WindowSample}
  {settled settled' : List WindowClose} {published published' : List Event} {w : Millis}

theorem effectOf_eq (hname : p.name = p₀.name) (hendpoint : p.endpoint = p₀.endpoint) (w : Millis)
    (rulings : List (WindowClose × Ruling)) : p.effectOf w rulings = p₀.effectOf w rulings := by
  have hevent : p.eventFor? w = p₀.eventFor? w := by
    funext closed
    obtain ⟨c, ruling⟩ := closed
    cases ruling <;> simp only [eventFor?, eventOf, hname, hendpoint]
  have hfault : p.faultFor? = p₀.faultFor? := by
    funext closed
    obtain ⟨c, ruling⟩ := closed
    cases ruling <;> simp only [faultFor?, evaluationFault, hname]
  rw [effectOf, effectOf, hevent, hfault]

/-- No two closes that are due stand in one place. -/
theorem Regular.precedes_due {spec : TopicSpec} (h : p.Regular spec) (w : Millis) :
    (p.due w).Pairwise WindowClose.Precedes := by
  apply ((p.pairwise_due w).and (h.nodup_due w)).imp_of_mem
  rintro c d hc hd ⟨hbefore, hne⟩
  rcases closesBefore_iff.mp hbefore with hlt | ⟨hstop, hindex⟩
  · exact Or.inl hlt
  · refine Or.inr ⟨hstop, Nat.lt_of_le_of_ne hindex fun heq => ?_⟩
    exact hne (h.eq_of_place hc hd hstop heq)

/-- A new topic has settled nothing. -/
theorem settles_new (name : String) (endpoint : Endpoint) (spec : TopicSpec)
    (settings : Settings) :
    Settles (new name endpoint spec settings) (new name endpoint spec settings) (fun _ _ => [])
      [] [] where
  name_eq := rfl
  endpoint_eq := rfl
  alive := rfl
  regular := regular_new name endpoint spec settings
  closedThrough_eq := by
    intro a ha
    obtain ⟨i, hi, rfl⟩ := List.mem_mapIdx.mp ha
    rfl
  keeps := by
    intro a ha
    obtain ⟨i, hi, rfl⟩ := List.mem_mapIdx.mp ha
    exact Aggregator.keeps_new (Ladder.flaw?_of_mem (List.getElem_mem hi))
  mem := by simp [Aggregator.Emitted]
  sorted := List.Pairwise.nil
  standing_eq := rfl
  published_eq := rfl

namespace Settles

/-- What a topic counts has no part in what it has settled. -/
theorem congr (h : Settles p₀ p owned settled published) {counts : TopicCounts} :
    Settles p₀ { p with counts := counts } owned settled published :=
  ⟨h.name_eq, h.endpoint_eq, h.alive, h.regular.congr rfl rfl, h.closedThrough_eq, h.keeps, h.mem,
    h.sorted, h.standing_eq, h.published_eq⟩

/-- What is due ends behind everything that was settled. -/
theorem stop_lt_of_due (h : Settles p₀ p owned settled published)
    (hstart : p₀.spec.start ≠ some Millis.first) {c d : WindowClose} (hc : c ∈ settled)
    (hd : d ∈ p.due w) : c.span.stop.val < d.span.stop.val := by
  obtain ⟨a, ha, span, hholds, -, ⟨u, hu, hend⟩, rfl⟩ := h.mem.mp hc
  obtain ⟨b, hb, hdb⟩ := mem_due.mp hd
  have hreached : b.hasReached u = true := by
    refine Aggregator.hasReached_iff.mpr ⟨u, ?_, Int.le_refl _⟩
    rw [h.closedThrough_eq hb, ← h.closedThrough_eq ha, hu]
  have hlate : u.val < d.span.stop.val :=
    ((h.regular.windows hb).stop_of_mem hdb (h.regular.first_lt_of_mem_due hstart hd)).2 u hreached
  have hstop := hholds.stop_val (h.regular.windows ha).proper
  have hspan : (a.closeOf ⟨span, owned a.grid span⟩).span = span := rfl
  rw [hspan]
  omega

/-- What the windows have emitted after a watermark is what was settled before it, and what is due
now. -/
theorem mem_append_due (h : Settles p₀ p owned settled published)
    (hstart : p₀.spec.start ≠ some Millis.first) (w : Millis) {c : WindowClose} :
    c ∈ settled ∨ c ∈ p.due w ↔
      ∃ b ∈ p.aggregators.map fun a => (a.closeThrough w).1, b.Emitted (owned b.grid) c := by
  have hemitted : ∀ {a : Aggregator}, a ∈ p.aggregators →
      ((a.closeThrough w).1.Emitted (owned a.grid) c ↔
        a.Emitted (owned a.grid) c ∨ c ∈ (a.closeThrough w).2) :=
    fun ha => (h.keeps ha).emitted_closeThrough (h.regular.first_lt_origin hstart ha) w
  rw [h.mem, mem_due]
  constructor
  · rintro (⟨a, ha, hc⟩ | ⟨a, ha, hc⟩)
    · refine ⟨_, List.mem_map_of_mem ha, ?_⟩
      rw [a.closeThrough_grid]
      exact (hemitted ha).mpr (Or.inl hc)
    · refine ⟨_, List.mem_map_of_mem ha, ?_⟩
      rw [a.closeThrough_grid]
      exact (hemitted ha).mpr (Or.inr hc)
  · rintro ⟨b, hb, hc⟩
    obtain ⟨a, ha, rfl⟩ := List.mem_map.mp hb
    rw [a.closeThrough_grid] at hc
    rcases (hemitted ha).mp hc with hc | hc
    · exact Or.inl ⟨a, ha, hc⟩
    · exact Or.inr ⟨a, ha, hc⟩

/-- A watermark settles the closes that it evaluates. -/
theorem advance (h : Settles p₀ p owned settled published)
    (hstart : p₀.spec.start ≠ some Millis.first) (w : Millis) :
    Settles p₀ (p.advance w).1 owned (settled ++ p.evaluated w)
      (published ++ (p.advance w).2.events) := by
  cases hskips : p.skips w with
  | true =>
    rw [advance_of_skips hskips, evaluated, if_pos hskips, List.append_nil]
    simpa [Effect.none] using h
  | false =>
    have hnew : ∀ {a : Aggregator}, a ∈ p.aggregators → a.hasReached w = false := by
      intro a ha
      rw [Aggregator.hasReached, h.closedThrough_eq ha]
      exact (Bool.or_eq_false_iff.mp hskips).2
    have hverdict : p.verdict w =
        (p₀.standing.judgeAll p₀.spec.ladder settled).1.judgeAll p₀.spec.ladder (p.due w) := by
      rw [verdict, h.standing_eq, h.regular.spec_eq]
    have hregular : (p.advance w).1.Regular p₀.spec := h.regular.advance w
    rw [advance_of_new hskips] at hregular ⊢
    rw [evaluated, if_neg (Bool.eq_false_iff.mp hskips)]
    refine ⟨h.name_eq, h.endpoint_eq, h.alive, hregular, ?_, ?_, ?_, ?_, ?_, ?_⟩
    · intro a ha
      obtain ⟨b, hb, rfl⟩ := List.mem_map.mp ha
      exact Aggregator.closeThrough_closedThrough (hnew hb)
    · intro a ha
      obtain ⟨b, hb, rfl⟩ := List.mem_map.mp ha
      rw [b.closeThrough_grid]
      exact (h.keeps hb).closeThrough (h.regular.first_lt_origin hstart hb) w
    · intro c
      rw [List.mem_append]
      exact h.mem_append_due hstart w
    · refine List.pairwise_append.mpr ⟨h.sorted, h.regular.precedes_due w, ?_⟩
      intro c hc d hd
      exact Or.inl (h.stop_lt_of_due hstart hc hd)
    · rw [conclude_standing, hverdict, Standing.judgeAll_append]
    · rw [List.map_append, h.published_eq, p.undated_effectOf w 0,
        effectOf_eq h.name_eq h.endpoint_eq, hverdict, Standing.judgeAll_append, effectOf_append,
        ← List.map_append]
      rfl

/-- A sample that every rule has room for settles nothing. -/
theorem add (h : Settles p₀ p owned settled published) {s : Sample}
    (hroom : ∀ a ∈ p.aggregators, (a.add s.time s.value).2.overflowed = 0)
    (howned : ∀ a ∈ p.aggregators, ∀ span,
      owned' a.grid span = owned a.grid span ++ a.receipt s.time s.value span)
    (counts : TopicCounts) (seen : Option Millis) :
    Settles p₀ { p.offered s counts with latestSeen := seen } owned' settled published where
  name_eq := h.name_eq
  endpoint_eq := h.endpoint_eq
  alive := h.alive
  regular := h.regular.of_map (fun a => (a.add s.time s.value).1) rfl rfl
    (fun a => ⟨a.add_rule _ _, a.add_ruleIndex _ _, a.add_grid _ _⟩)
    (fun _ ha => ha.add s.time s.value)
  closedThrough_eq := by
    intro a ha
    obtain ⟨b, hb, rfl⟩ := List.mem_map.mp ha
    rw [b.add_closedThrough]
    exact h.closedThrough_eq hb
  keeps := by
    intro a ha
    obtain ⟨b, hb, rfl⟩ := List.mem_map.mp ha
    have hkeeps := (h.keeps hb).add (hroom b hb)
    rw [b.add_grid, show owned' b.grid = _ from funext (howned b hb)]
    exact hkeeps
  mem := by
    intro c
    have hemitted : ∀ a ∈ p.aggregators,
        ((a.add s.time s.value).1.Emitted (owned' (a.add s.time s.value).1.grid) c ↔
          a.Emitted (owned a.grid) c) := by
      intro a ha
      rw [a.add_grid, show owned' a.grid = _ from funext (howned a ha)]
      exact (h.keeps ha).emitted_add
    rw [h.mem]
    constructor
    · rintro ⟨a, ha, hc⟩
      exact ⟨_, List.mem_map_of_mem ha, (hemitted a ha).mpr hc⟩
    · rintro ⟨b, hb, hc⟩
      obtain ⟨a, ha, rfl⟩ := List.mem_map.mp hb
      exact ⟨a, ha, (hemitted a ha).mp hc⟩
  sorted := h.sorted
  standing_eq := h.standing_eq
  published_eq := h.published_eq

/-- A topic that has seen the same watermark has settled a close of the same window, with the same
outcome up to the reason of a failure. -/
theorem exists_blurred (h : Settles p₀ p owned settled published)
    (h' : Settles p₀ q owned' settled' published') (hwatermark : p.watermark = q.watermark)
    (halike : ∀ rule ∈ p₀.spec.ladder.rules, ∀ g span,
      Aggregate.Alike rule (owned g span) (owned' g span))
    {c : WindowClose} (hc : c ∈ settled) : ∃ c' ∈ settled', c'.blurred = c.blurred := by
  obtain ⟨a, ha, span, hholds, hne, ⟨u, hu, hend⟩, rfl⟩ := h.mem.mp hc
  obtain ⟨i, hi, hget⟩ := List.getElem_of_mem ha
  have hplace := h.regular.place (List.getElem?_eq_some_iff.mpr ⟨hi, hget⟩)
  have hi' : i < q.aggregators.length := by
    rw [h.regular.length_eq] at hi
    rw [h'.regular.length_eq]
    exact hi
  have hb : q.aggregators[i] ∈ q.aggregators := List.getElem_mem hi'
  have hplace' := h'.regular.place (List.getElem?_eq_getElem hi')
  have hrule : q.aggregators[i].rule = a.rule := by
    have hsome := hplace'.1
    rw [hplace.1] at hsome
    exact (Option.some.inj hsome).symm
  have hgrid : q.aggregators[i].grid = a.grid := by
    rw [hplace'.2.2, hplace.2.2, hrule]
  have hrules : a.rule ∈ p₀.spec.ladder.rules := List.mem_of_getElem? hplace.1
  have hsame := halike a.rule hrules a.grid span
  refine ⟨q.aggregators[i].closeOf ⟨span, owned' a.grid span⟩, ?_, ?_⟩
  · rw [← hgrid, h'.mem]
    refine ⟨_, hb, span, by rwa [hgrid], ?_, ⟨u, ?_, by rwa [hgrid]⟩, rfl⟩
    · rw [hgrid]
      intro hnil
      apply hne
      rw [← List.length_eq_zero_iff, hsame.1, hnil, List.length_nil]
    · rw [h'.closedThrough_eq hb, ← hwatermark, ← h.closedThrough_eq ha, hu]
  · simp only [Aggregator.closeOf, WindowClose.blurred, hrule, hplace.2.1, hplace'.2.1, hsame.1,
      hsame.2]

/-- Topics that have seen the same watermark, and whose windows own alike samples, have settled the
same closes up to the reasons of failures. -/
theorem blurred_eq (h : Settles p₀ p owned settled published)
    (h' : Settles p₀ q owned' settled' published') (hwatermark : p.watermark = q.watermark)
    (halike : ∀ rule ∈ p₀.spec.ladder.rules, ∀ g span,
      Aggregate.Alike rule (owned g span) (owned' g span)) :
    settled.map WindowClose.blurred = settled'.map WindowClose.blurred := by
  have hsorted : (settled.map WindowClose.blurred).Pairwise WindowClose.Precedes :=
    List.pairwise_map.mpr h.sorted
  have hsorted' : (settled'.map WindowClose.blurred).Pairwise WindowClose.Precedes :=
    List.pairwise_map.mpr h'.sorted
  have halike' : ∀ rule ∈ p₀.spec.ladder.rules, ∀ g span,
      Aggregate.Alike rule (owned' g span) (owned g span) :=
    fun rule hrule g span => (halike rule hrule g span).symm
  apply hsorted.eq_of_mem_iff hsorted'
  intro k
  constructor
  · intro hk
    obtain ⟨c, hc, rfl⟩ := List.mem_map.mp hk
    obtain ⟨c', hc', heq⟩ := h.exists_blurred h' hwatermark halike hc
    rw [← heq]
    exact List.mem_map_of_mem hc'
  · intro hk
    obtain ⟨c, hc, rfl⟩ := List.mem_map.mp hk
    obtain ⟨c', hc', heq⟩ := h'.exists_blurred h hwatermark.symm halike' hc
    rw [← heq]
    exact List.mem_map_of_mem hc'

/-- Topics that have seen the same watermark, and whose windows own alike samples, stand alike and
have published the same events up to the timestamps. -/
theorem standing_eq_of_alike (h : Settles p₀ p owned settled published)
    (h' : Settles p₀ q owned' settled' published') (hwatermark : p.watermark = q.watermark)
    (halike : ∀ rule ∈ p₀.spec.ladder.rules, ∀ g span,
      Aggregate.Alike rule (owned g span) (owned' g span)) :
    p.standing = q.standing ∧ published.map Event.undated = published'.map Event.undated := by
  have hblurred := h.blurred_eq h' hwatermark halike
  obtain ⟨hstanding, hevents⟩ :=
    p₀.standing.judgeAll_blurred p₀.spec.ladder settled p₀ 0
  obtain ⟨hstanding', hevents'⟩ :=
    p₀.standing.judgeAll_blurred p₀.spec.ladder settled' p₀ 0
  constructor
  · rw [h.standing_eq, h'.standing_eq, ← hstanding, ← hstanding', hblurred]
  · rw [h.published_eq, h'.published_eq, ← hevents, ← hevents', hblurred]

end Settles

end Pipeline

end TelemetryBands
