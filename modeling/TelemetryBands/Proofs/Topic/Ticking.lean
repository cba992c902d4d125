import Mathlib.Data.List.Induction
import TelemetryBands.Proofs.Topic.Due

/-!
# Ticking and replay

A clock moves the watermark of a topic in many small steps, a replay in one great step. The closes
of the small steps follow each other in the order of the great step, and what is decided about a
close does not depend on the batch in which it comes. So both leave the same topic and publish the
same events, which differ only in the watermark that they show as their timestamp.
-/

namespace TelemetryBands

/-- An event without the watermark that closed its window. -/
def Event.undated (e : Event) : Event :=
  { e with timestamp := 0 }

namespace Pipeline

/-- Two outcomes of watermarks agree: they leave the same topic but for what its subscribers hold,
these were handed the events of the first outcome, and the events and faults are the same up to the
timestamps. -/
structure Agree (d : Dispatcher) (many once : Pipeline × Effect) : Prop where
  state : many.1 = { once.1 with dispatcher := d.dispatchAll many.2.events }
  faults : many.2.faults = once.2.faults
  events : many.2.events.map Event.undated = once.2.events.map Event.undated

variable {p : Pipeline} {v w : Millis} {spec : TopicSpec}

/-- The watermark of an evaluation is seen in the timestamps of its events only. -/
theorem undated_effectOf (p : Pipeline) (v w : Millis) (rulings : List (WindowClose × Ruling)) :
    (p.effectOf v rulings).events.map Event.undated =
      (p.effectOf w rulings).events.map Event.undated := by
  simp only [effectOf, List.map_filterMap]
  congr 1
  funext closed
  obtain ⟨c, ruling⟩ := closed
  cases ruling <;> rfl

/-- A watermark hands its events to the subscribers, who have no part in it otherwise. -/
theorem advance_dispatcher (p : Pipeline) (d : Dispatcher) (w : Millis) :
    { p with dispatcher := d }.advance w =
      ({ (p.advance w).1 with dispatcher := d.dispatchAll (p.advance w).2.events },
        (p.advance w).2) := by
  cases hskips : p.skips w with
  | true =>
    have hskips' : { p with dispatcher := d }.skips w = true := hskips
    rw [advance_of_skips hskips, advance_of_skips hskips']
    rfl
  | false =>
    have hskips' : { p with dispatcher := d }.skips w = false := hskips
    rw [advance_of_new hskips, advance_of_new hskips']
    rfl

/-- The events of a watermark reach the subscribers. -/
theorem dispatcher_advance (p : Pipeline) (w : Millis) :
    (p.advance w).1.dispatcher = p.dispatcher.dispatchAll (p.advance w).2.events := by
  have h := p.advance_dispatcher p.dispatcher w
  exact congrArg (fun outcome => outcome.1.dispatcher) h

namespace Agree

variable {d : Dispatcher} {many once last : Pipeline × Effect}

/-- The outcome of one watermark agrees with itself. -/
theorem advance_self (p : Pipeline) (w : Millis) :
    Agree p.dispatcher (p.advance w) (p.advance w) where
  state := by rw [← dispatcher_advance]
  faults := rfl
  events := rfl

theorem trans (h : Agree d many once) (h' : Agree d once last) : Agree d many last where
  state := by rw [h.state, h'.state]
  faults := h.faults.trans h'.faults
  events := h.events.trans h'.events

/-- Outcomes that agree still do so after one more watermark. -/
theorem advance (h : Agree d many once) (w : Millis) :
    Agree d ((many.1.advance w).1, many.2.andThen (many.1.advance w).2)
      ((once.1.advance w).1, once.2.andThen (once.1.advance w).2) := by
  have hnext := once.1.advance_dispatcher (d.dispatchAll many.2.events) w
  rw [← h.state] at hnext
  refine ⟨?_, ?_, ?_⟩
  · simp only [hnext, Effect.andThen, Dispatcher.dispatchAll_append]
  · simp only [hnext, Effect.andThen, h.faults]
  · simp only [hnext, Effect.andThen, List.map_append, h.events]

end Agree

/-- The rulings of two watermarks, the later one second, are the rulings of the later one alone. -/
theorem Regular.verdict_append (h : p.Regular spec) (hstart : spec.start ≠ some Millis.first)
    (hlt : v < w) :
    p.verdict w =
      ((((p.closed v).conclude v (p.verdict v).1 (p.verdict v).2).verdict w).1,
        (p.verdict v).2 ++
          (((p.closed v).conclude v (p.verdict v).1 (p.verdict v).2).verdict w).2) := by
  rw [verdict, ← h.due_append hstart hlt, Standing.judgeAll_append]
  rfl

/-- The books of two watermarks, the later one second, are those of the later one alone, but for
what the subscribers hold. -/
theorem Regular.closed_conclude (h : p.Regular spec) (hstart : spec.start ≠ some Millis.first)
    (hlt : v < w) (s s' : Standing) (first second : List (WindowClose × Ruling)) :
    (((p.closed v).conclude v s first).closed w).conclude w s' second =
      { (p.closed w).conclude w s' (first ++ second) with
        dispatcher := p.dispatcher.dispatchAll
          ((p.effectOf v first).events ++ (p.effectOf w second).events) } := by
  have haggregators : (p.closed v).aggregators.map (fun a => (a.closeThrough w).1) =
      p.aggregators.map fun a => (a.closeThrough w).1 := by
    rw [closed, List.map_map]
    congr 1
    funext a
    exact (a.closeThrough_closeThrough hlt).1
  have hdue : (p.due v).length + ((p.closed v).due w).length = (p.due w).length := by
    rw [← h.due_append hstart hlt, List.length_append]
  have hcounts : (((p.counts.close (p.due v).length).ruleAll first).close
      ((p.closed v).due w).length).ruleAll second =
        (p.counts.close (p.due w).length).ruleAll (first ++ second) := by
    rw [← TopicCounts.ruleAll_close, TopicCounts.close_close, hdue, TopicCounts.ruleAll_append]
  have hdispatcher := p.dispatcher.dispatchAll_append (p.effectOf v first).events
    (p.effectOf w second).events
  rw [hdispatcher, conclude, conclude, closed, closed, Pipeline.mk.injEq]
  exact ⟨rfl, rfl, rfl, haggregators, rfl, rfl, rfl, rfl, rfl, rfl, hcounts, rfl⟩

/-- Two watermarks, the later one second, agree with the later one alone. -/
theorem Regular.advance_advance (h : p.Regular spec) (hstart : spec.start ≠ some Millis.first)
    (hlt : v < w) :
    Agree p.dispatcher
      (((p.advance v).1.advance w).1, (p.advance v).2.andThen ((p.advance v).1.advance w).2)
      (p.advance w) := by
  cases hfirst : p.skips v with
  | true =>
    rw [advance_of_skips hfirst]
    exact Agree.advance_self p w
  | false =>
    have hsecond : p.skips w = false := by
      refine Bool.eq_false_iff.mpr fun hskips => ?_
      rw [skips_of_le hskips (Int.le_of_lt hlt)] at hfirst
      cases hfirst
    have hnext : (p.advance v).1.skips w = false := by
      have hdeleted : p.deleted = false := (Bool.or_eq_false_iff.mp hfirst).1
      rw [advance_of_new hfirst]
      refine Bool.or_eq_false_iff.mpr ⟨hdeleted, ?_⟩
      refine Bool.eq_false_iff.mpr fun hreached => ?_
      obtain ⟨u, hu, hle⟩ := hasReached_iff.mp hreached
      obtain rfl := Option.some.inj hu
      rw [Millis.lt_def] at hlt
      omega
    rw [advance_of_new hnext, advance_of_new hsecond, advance_of_new hfirst,
      h.verdict_append hstart hlt]
    refine ⟨h.closed_conclude hstart hlt _ _ _ _, ?_, ?_⟩
    · simp only [Effect.andThen, effectOf, List.filterMap_append]
      rfl
    · simp only [Effect.andThen, effectOf_append, List.map_append]
      rw [p.undated_effectOf v w]
      rfl

/-- Watermarks have a greatest one. -/
theorem exists_latest {ws : List Millis} (h : ws ≠ []) : ∃ m ∈ ws, ∀ w ∈ ws, w ≤ m := by
  induction ws with
  | nil => exact absurd rfl h
  | cons head ws ih =>
    by_cases hws : ws = []
    · refine ⟨head, List.mem_cons_self, ?_⟩
      intro w hw
      rw [hws, List.mem_singleton] at hw
      exact Int.le_of_eq (congrArg Millis.val hw)
    · obtain ⟨m, hm, hmax⟩ := ih hws
      by_cases hle : head ≤ m
      · refine ⟨m, List.mem_cons_of_mem _ hm, ?_⟩
        intro w hw
        rcases List.mem_cons.mp hw with rfl | hw
        · exact hle
        · exact hmax w hw
      · refine ⟨head, List.mem_cons_self, ?_⟩
        intro w hw
        rcases List.mem_cons.mp hw with rfl | hw
        · exact Int.le_refl _
        · have hwm := hmax w hw
          simp only [Millis.le_def] at *
          omega

/-- What a list of watermarks makes of a topic. -/
def ticked (p : Pipeline) (ws : List Millis) : Pipeline × Effect :=
  ((p.run (ws.map .advance)).1, effects (p.run (ws.map .advance)).2)

theorem ticked_append (p : Pipeline) (ws : List Millis) (w : Millis) :
    p.ticked (ws ++ [w]) =
      (((p.ticked ws).1.advance w).1, (p.ticked ws).2.andThen ((p.ticked ws).1.advance w).2) := by
  rw [ticked, List.map_append, run_append, effects_append]
  simp [ticked, run, apply, effects, Effect.andThen]

/-- A list of watermarks in any order agrees with its greatest one. -/
theorem Regular.ticked (h : p.Regular spec) (hstart : spec.start ≠ some Millis.first)
    {ws : List Millis} {m : Millis} (hm : m ∈ ws) (hmax : ∀ w ∈ ws, w ≤ m) :
    Agree p.dispatcher (p.ticked ws) (p.advance m) := by
  induction ws using List.reverseRecOn generalizing m with
  | nil => cases hm
  | append_singleton ws w ih =>
    have hw : w ≤ m := hmax w (List.mem_append_right _ List.mem_cons_self)
    rw [ticked_append]
    by_cases hws : ws = []
    · have hmw : m = w := by simpa [hws] using hm
      have hself := Agree.advance_self p w
      rw [hmw, hws]
      exact hself
    · obtain ⟨n, hn, hnmax⟩ := exists_latest hws
      have hnm : n ≤ m := hmax n (List.mem_append_left _ hn)
      have hagree := (ih hn hnmax).advance w
      by_cases hwn : w ≤ n
      · -- The watermark comes too late to do anything.
        have hmn : m ≤ n := by
          rcases List.mem_append.mp hm with hm | hm
          · exact hnmax m hm
          · rw [List.mem_singleton.mp hm]
            exact hwn
        have hskips := skips_of_le (p.skips_advance n) hwn
        rw [advance_of_skips hskips] at hagree
        rw [Millis.le_antisymm hmn hnm]
        simpa [Effect.andThen, Effect.none] using hagree
      · have hlt : n < w := by
          simp only [Millis.le_def, Millis.lt_def] at *
          omega
        have hmw : m ≤ w := by
          rcases List.mem_append.mp hm with hm | hm
          · exact Int.le_trans (hnmax m hm) (Int.le_of_lt hlt)
          · exact Int.le_of_eq (congrArg Millis.val (List.mem_singleton.mp hm))
        rw [Millis.le_antisymm hmw hw]
        exact hagree.trans (h.advance_advance hstart hlt)

/-- What subscribers hold is not shown in the figures of a topic. -/
theorem stats_dispatchAll (p : Pipeline) (d : Dispatcher) (events : List Event)
    (h : d.subscribers.length = p.dispatcher.subscribers.length) :
    { p with dispatcher := d.dispatchAll events }.stats = p.stats := by
  simp only [stats, band, Dispatcher.length_dispatchAll, h]

/-- Live ticking and replay agree. After any history of calls on a topic whose windows do not start
at the first instant of the clock, watermarks in any order and with repetitions leave the same topic
as the greatest of them alone, but for what the subscribers hold, who were handed the published
events in both cases; they report the same faults, and they publish the same events in the same
order, up to the timestamps. -/
theorem ticking_agrees_with_replay (name : String) (endpoint : Endpoint) (spec : TopicSpec)
    (settings : Settings) (calls : List Call) {ws : List Millis} {m : Millis}
    (hstart : spec.start ≠ some Millis.first) (hm : m ∈ ws) (hmax : ∀ w ∈ ws, w ≤ m) :
    let p := ((new name endpoint spec settings).run calls).1
    let many := p.ticked ws
    let once := p.advance m
    many.1 = { once.1 with dispatcher := p.dispatcher.dispatchAll many.2.events } ∧
      once.1.dispatcher = p.dispatcher.dispatchAll once.2.events ∧
      many.1.stats = once.1.stats ∧
      many.2.faults = once.2.faults ∧
      many.2.events.map Event.undated = once.2.events.map Event.undated := by
  intro p many once
  have hregular : p.Regular spec := (regular_new name endpoint spec settings).run calls
  have hagree : Agree p.dispatcher many once := hregular.ticked hstart hm hmax
  have hdispatcher := p.dispatcher_advance m
  have hsubscribers : p.dispatcher.subscribers.length = once.1.dispatcher.subscribers.length := by
    rw [hdispatcher, Dispatcher.length_dispatchAll]
  have hstats : many.1.stats = once.1.stats := by
    rw [hagree.state]
    exact once.1.stats_dispatchAll p.dispatcher many.2.events hsubscribers
  exact ⟨hagree.state, hdispatcher, hstats, hagree.faults, hagree.events⟩

/-- A clock that ticks late, early and twice. -/
theorem ticking_agrees_with_replay_unordered :
    let rule : Rule := ⟨1, some 0.0, none, .both, 3000, 1000, .last, none⟩
    let spec : TopicSpec := ⟨"boiler", "pressure", some 500, none, ⟨[rule], by decide⟩, rfl⟩
    let calls : List Call := [.ingest ⟨700, .integer 7⟩, .ingest ⟨2600, .integer 9⟩]
    let ws : List Millis := [3500, 1000, 5500, 5500, 4500]
    let p := ((new "t" ⟨none, none, "boiler", "pressure"⟩ spec .standard).run calls).1
    spec.start ≠ some Millis.first ∧ (5500 : Millis) ∈ ws ∧ (∀ w ∈ ws, w ≤ 5500) ∧
      (p.ticked ws).2.events.map Event.undated = (p.advance 5500).2.events.map Event.undated := by
  intro rule spec calls ws p
  have hstart : spec.start ≠ some Millis.first := by decide
  have hm : (5500 : Millis) ∈ ws := by decide
  have hmax : ∀ w ∈ ws, w ≤ 5500 := by decide
  have h := ticking_agrees_with_replay "t" ⟨none, none, "boiler", "pressure"⟩ spec .standard calls
    hstart hm hmax
  exact ⟨hstart, hm, hmax, h.2.2.2.2⟩

end Pipeline

end TelemetryBands
