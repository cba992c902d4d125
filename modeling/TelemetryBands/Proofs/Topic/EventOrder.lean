import TelemetryBands.Proofs.Topic.Rewinding

/-!
# The order of events

A topic has passed an instant if all its aggregators are closed through it. No call takes that back,
not even one that takes over an older snapshot and moves the watermark itself back. What a watermark
publishes tells of windows that end behind every instant passed before, and up to the watermark,
which is passed from then on. So the events of a history come in the order of their windows. The
window that starts at the first instant of the clock stands apart, as it may be closed before its
end and once more later.
-/

namespace TelemetryBands

/-- An event tells of a window on the grid of some rule, and that window has ended by the time of
the event. -/
structure Event.TellsOf (e : Event) (spec : TopicSpec) : Prop where
  nonempty : e.windowStart < e.windowEnd
  ended : e.windowEnd ≤ e.timestamp
  placed : ∃ rule ∈ spec.ladder.rules, ∃ k : Nat,
    e.windowStart.val = (spec.start.getD 0).val + k * rule.windowOffset.val ∧
      e.windowEnd.val = e.windowStart.val + rule.windowSize.val

/-- One event comes before another one, by their windows and by their times. -/
def Event.InOrder (d e : Event) : Prop :=
  d.windowEnd ≤ e.windowEnd ∧ d.timestamp ≤ e.timestamp

theorem Aggregator.hasReached_iff_not_behind {a : Aggregator} {t : Millis} :
    a.hasReached t = true ↔ ¬ Behind a.closedThrough (some t) := by
  rw [hasReached_iff]
  cases a.closedThrough with
  | none => simp [Behind]
  | some v => simp [Behind, Millis.lt_def]

/-- A watermark does not lower how far an aggregator is closed. -/
theorem not_behind_raised {w t : Millis} {level : Option Millis}
    (h : ¬ Behind level (some t)) : ¬ Behind (raised w level) (some t) := by
  cases level with
  | none => exact absurd trivial h
  | some v =>
    have hle : t ≤ v := Int.not_lt.mp h
    simp only [raised, Option.map_some, Option.getD_some, Behind, Millis.lt_def, Millis.later_val]
    rw [Millis.le_def] at hle
    omega

/-- After a watermark an aggregator is closed through it. -/
theorem not_behind_raised_self (w : Millis) (level : Option Millis) :
    ¬ Behind (raised w level) (some w) := by
  cases level with
  | none => exact not_behind_self (some w)
  | some v =>
    simp only [raised, Option.map_some, Option.getD_some, Behind, Millis.lt_def, Millis.later_val]
    omega

namespace Pipeline

/-- Every aggregator of a topic is closed through an instant. -/
def Passed (p : Pipeline) (t : Millis) : Prop :=
  ∀ level ∈ p.levels, ¬ Behind level (some t)

variable {p q r : Pipeline} {spec : TopicSpec} {w t : Millis} {events events' : List Event}

/-- What is passed stays passed, however the watermark moves. -/
theorem Moves.passed {taken : Option Millis} (h : p.Moves q taken) (ht : p.Passed t) :
    q.Passed t := by
  rcases h with ⟨-, hlevels⟩ | ⟨w, -, hlevels, -⟩
  · rw [Passed, hlevels]
    exact ht
  · intro level hlevel
    rw [hlevels] at hlevel
    obtain ⟨before, hbefore, rfl⟩ := List.mem_map.mp hlevel
    exact not_behind_raised (ht before hbefore)

/-- A watermark that is not skipped is passed. -/
theorem passed_advance (h : p.skips w = false) : (p.advance w).1.Passed w := by
  have hlevels : (p.advance w).1.levels = p.levels.map (raised w) := by
    rw [advance_of_new h]
    exact levels_closeThrough rfl
  intro level hlevel
  rw [hlevels] at hlevel
  obtain ⟨before, -, rfl⟩ := List.mem_map.mp hlevel
  exact not_behind_raised_self w before

/-- The event of a ruling has the window of its close and the time of its watermark. -/
theorem of_eventFor? {ruling : WindowClose × Ruling} {e : Event}
    (h : p.eventFor? w ruling = some e) :
    e.windowStart = ruling.1.span.start ∧ e.windowEnd = ruling.1.span.stop ∧ e.timestamp = w := by
  obtain ⟨c, ruling⟩ := ruling
  cases ruling with
  | published state kind aggregate =>
    obtain rfl := Option.some.inj h
    exact ⟨rfl, rfl, rfl⟩
  | _ => cases h

/-- A new watermark evaluates what is due, close by close. -/
theorem advance_eq_evaluateAll (h : p.skips w = false) :
    p.advance w = (p.closed w).evaluateAll w (p.due w) := by
  rw [advance_of_new h, evaluateAll_eq]
  rfl

/-- The events of a watermark are events of closes that are due, at the time of the watermark. -/
theorem mem_events_advance {e : Event} (he : e ∈ (p.advance w).2.events) :
    p.skips w = false ∧ e.timestamp = w ∧
      ∃ c ∈ p.due w, e.windowStart = c.span.start ∧ e.windowEnd = c.span.stop := by
  obtain ⟨hskips, c, hc, state, kind, aggregate, -, rfl⟩ := exists_of_mem_advance he
  exact ⟨hskips, rfl, c, hc, rfl, rfl⟩

/-- The events of a watermark come in the order of their windows. -/
theorem pairwise_events_advance (p : Pipeline) (w : Millis) :
    (p.advance w).2.events.Pairwise Event.InOrder := by
  cases hskips : p.skips w with
  | true =>
    rw [advance_of_skips hskips]
    exact List.Pairwise.nil
  | false =>
    rw [advance_of_new hskips]
    have hdue : (p.verdict w).2.Pairwise fun c d => closesBefore c.1 d.1 = true := by
      rw [← List.pairwise_map (f := Prod.fst) (R := fun c d => closesBefore c d = true), verdict,
        Standing.map_fst_judgeAll]
      exact p.pairwise_due w
    refine hdue.filterMap _ fun c d hbefore e he e' he' => ?_
    obtain ⟨-, hlast, htime⟩ := of_eventFor? he
    obtain ⟨-, hlast', htime'⟩ := of_eventFor? he'
    rw [Event.InOrder, hlast, hlast', htime, htime', Millis.le_def, Millis.le_def]
    rw [closesBefore_iff, Millis.ext_iff] at hbefore
    omega

/-- What a regular topic closes at a watermark are windows on the grids of its rules, which end up
to the watermark and behind all that it has passed, unless they start at the first instant. -/
theorem Regular.of_mem_due (h : p.Regular spec) {c : WindowClose} (hc : c ∈ p.due w)
    (hfirst : Millis.first < c.span.start) :
    c.span.start < c.span.stop ∧ c.span.stop ≤ w ∧ (∀ t, p.Passed t → t < c.span.stop) ∧
      ∃ rule ∈ spec.ladder.rules, ∃ k : Nat,
        c.span.start.val = (spec.start.getD 0).val + k * rule.windowOffset.val ∧
          c.span.stop.val = c.span.start.val + rule.windowSize.val := by
  obtain ⟨a, ha, hca⟩ := mem_due.mp hc
  obtain ⟨i, hi⟩ := List.getElem?_of_mem ha
  obtain ⟨hrule, -, hgrid⟩ := h.place hi
  have hregular := h.windows ha
  obtain ⟨hended, hbehind⟩ := hregular.stop_of_mem hca hfirst
  obtain ⟨-, s, window, hfind, hs, rfl⟩ := Aggregator.of_mem_closeThrough hca
  have hstop := hregular.stop_eq_endOf hfind hs
  obtain ⟨k, hk⟩ := (hregular.window hfind).2.start
  have hsize := hregular.proper.size_pos
  rw [hgrid] at hk hsize
  rw [WindowGrid.endOf, hgrid] at hstop
  refine ⟨?_, hended, ?_, a.rule, List.mem_of_getElem? hrule, k, hk, hstop⟩
  · show window.span.start.val < window.span.stop.val
    omega
  · intro t ht
    apply hbehind
    rw [Aggregator.hasReached_iff_not_behind]
    exact ht _ (List.mem_map_of_mem ha)

/-- A topic became another one and published events in order: they tell of windows behind all that
was passed before, and their times are passed afterwards. Of windows that start at the first instant
of the clock nothing is said, but only a topic that starts there has them. -/
structure Issues (p q : Pipeline) (spec : TopicSpec) (events : List Event) : Prop where
  first_lt : spec.start ≠ some Millis.first → ∀ e ∈ events, Millis.first < e.windowStart
  told : ∀ e ∈ events, Millis.first < e.windowStart → e.TellsOf spec
  behind : ∀ e ∈ events, Millis.first < e.windowStart → ∀ t, p.Passed t → t < e.windowEnd
  passed : ∀ e ∈ events, q.Passed e.timestamp
  inOrder : events.Pairwise fun d e =>
    Millis.first < d.windowStart → Millis.first < e.windowStart → d.InOrder e
  keeps : ∀ t, p.Passed t → q.Passed t

namespace Issues

theorem nothing (hkeeps : ∀ t, p.Passed t → q.Passed t) : p.Issues q spec [] where
  first_lt := by simp
  told := by simp
  behind := by simp
  passed := by simp
  inOrder := List.Pairwise.nil
  keeps := hkeeps

/-- Events in two parts: what the first part has passed divides them. -/
theorem trans (h : p.Issues q spec events) (h' : q.Issues r spec events') :
    p.Issues r spec (events ++ events') where
  first_lt := fun hstart e he =>
    (List.mem_append.mp he).elim (h.first_lt hstart e) (h'.first_lt hstart e)
  told := fun e he => (List.mem_append.mp he).elim (h.told e) (h'.told e)
  behind := by
    intro e he hfirst t ht
    rcases List.mem_append.mp he with he | he
    · exact h.behind e he hfirst t ht
    · exact h'.behind e he hfirst t (h.keeps t ht)
  passed := by
    intro e he
    rcases List.mem_append.mp he with he | he
    · exact h'.keeps _ (h.passed e he)
    · exact h'.passed e he
  inOrder := by
    refine List.pairwise_append.mpr ⟨h.inOrder, h'.inOrder, fun d hd e he hfirst hfirst' => ?_⟩
    have hended := (h.told d hd hfirst).ended
    have hended' := (h'.told e he hfirst').ended
    have hlt := h'.behind e he hfirst' _ (h.passed d hd)
    rw [Millis.le_def] at hended hended'
    rw [Millis.lt_def] at hlt
    rw [Event.InOrder, Millis.le_def, Millis.le_def]
    omega
  keeps := fun t ht => h'.keeps t (h.keeps t ht)

theorem advance (h : p.Regular spec) (w : Millis) :
    p.Issues (p.advance w).1 spec (p.advance w).2.events where
  first_lt := by
    intro hstart e he
    obtain ⟨-, -, c, hc, hbegin, -⟩ := mem_events_advance he
    rw [hbegin]
    exact h.first_lt_of_mem_due hstart hc
  told := by
    intro e he hfirst
    obtain ⟨-, htime, c, hc, hbegin, hlast⟩ := mem_events_advance he
    rw [hbegin] at hfirst
    obtain ⟨hnonempty, hended, -, hplaced⟩ := h.of_mem_due hc hfirst
    rw [← hbegin, ← hlast] at hnonempty hplaced
    rw [← hlast, ← htime] at hended
    exact ⟨hnonempty, hended, hplaced⟩
  behind := by
    intro e he hfirst t ht
    obtain ⟨-, -, c, hc, hbegin, hlast⟩ := mem_events_advance he
    rw [hbegin] at hfirst
    rw [hlast]
    exact (h.of_mem_due hc hfirst).2.2.1 t ht
  passed := by
    intro e he
    obtain ⟨hskips, htime, -⟩ := mem_events_advance he
    rw [htime]
    exact passed_advance hskips
  inOrder := (p.pairwise_events_advance w).imp fun h _ _ => h
  keeps := fun t ht => (p.moves_advance w).passed ht

theorem follow (h : p.Regular spec) (t : Millis) :
    p.Issues (p.follow t).1 spec (p.follow t).2.events := by
  have hseen : p.Issues { p with latestSeen := some (p.latestWith t) } spec [] :=
    nothing fun _ ht => ht
  have hregular : Regular { p with latestSeen := some (p.latestWith t) } spec :=
    h.congr rfl rfl
  exact p.follow_cases (motive := fun q => p.Issues q.1 spec q.2.events) t
    (nothing fun _ ht => ht) fun w => hseen.trans (advance hregular w)

theorem ingest (h : p.Regular spec) (s : Sample) :
    p.Issues (p.ingest s).1 spec (p.ingest s).2.2.events := by
  have hoffered : p.Issues (p.offered s (p.countsWith s)) spec [] := by
    refine nothing fun t ht => ?_
    rw [Passed, levels_offered]
    exact ht
  exact p.ingest_cases (motive := fun q => p.Issues q.1 spec q.2.2.events) s
    (fun _ => nothing fun _ ht => ht) (fun _ _ => nothing fun _ ht => ht) fun _ _ =>
      hoffered.trans (follow (h.offered s _) s.time)

/-- Every call on a regular topic publishes in order. -/
theorem apply (h : p.Regular spec) (call : Call) :
    p.Issues (p.apply call).1 spec (p.apply call).2.2.events := by
  have hsilent : (p.apply call).2.2.events = [] →
      p.Issues (p.apply call).1 spec (p.apply call).2.2.events := by
    intro hnone
    rw [hnone]
    exact nothing fun _ ht => (p.moves_apply call).passed ht
  cases call with
  | ingest s => exact ingest h s
  | advance w => exact advance h w
  | subscribe id sink => exact hsilent rfl
  | unsubscribe id => exact hsilent rfl
  | load text =>
    apply hsilent
    simp only [Pipeline.apply]
    cases p.load text <;> rfl
  | shutDown => exact hsilent rfl

/-- Every history of a regular topic publishes in order. -/
theorem run (h : p.Regular spec) (calls : List Call) :
    p.Issues (p.run calls).1 spec (effects (p.run calls).2).events := by
  induction calls generalizing p with
  | nil => exact nothing fun _ ht => ht
  | cons call calls ih => exact (apply h call).trans (ih (h.apply call))

end Issues

/-- Events come out in the order of their windows. On every history of a new topic, samples,
watermarks and snapshots of any age included, neither the ends of the windows nor the times of the
events ever go back, and each event tells of a window of a rule that has ended by its time. One
watermark evaluates the closes of all rules in the order of their ends, and those of one end in the
order of the rules. -/
theorem events_come_in_window_order (name : String) (endpoint : Endpoint) (spec : TopicSpec)
    (settings : Settings) (hstart : spec.start ≠ some Millis.first) (calls : List Call) :
    let events := (effects ((new name endpoint spec settings).run calls).2).events
    events.Pairwise Event.InOrder ∧ (∀ e ∈ events, e.TellsOf spec) ∧
      ∀ (p : Pipeline) (w : Millis), p.skips w = false →
        p.advance w = (p.closed w).evaluateAll w (p.due w) ∧ (p.due w).Perm (p.closes w) ∧
          (p.due w).Pairwise fun c d => c.span.stop < d.span.stop ∨
            (c.span.stop = d.span.stop ∧ c.ruleIndex ≤ d.ruleIndex) := by
  intro events
  have hissues := Issues.run (regular_new name endpoint spec settings) calls
  have hfirst := hissues.first_lt hstart
  have horder : events.Pairwise Event.InOrder := hissues.inOrder.imp_of_mem fun hd he h =>
    h (hfirst _ hd) (hfirst _ he)
  refine ⟨horder, fun e he => hissues.told e he (hfirst e he), fun p w hskips => ?_⟩
  refine ⟨advance_eq_evaluateAll hskips, p.due_perm w, (p.pairwise_due w).imp fun hbefore => ?_⟩
  exact closesBefore_iff.mp hbefore

/-- The events of a history in which a snapshot is taken over from its own text. -/
theorem events_run_load_save (p : Pipeline) (s : Snapshot) (before after : List Call) :
    (effects (p.run (before ++ .load s.save :: after)).2).events =
      (effects (p.run before).2).events ++
        (effects (((p.run before).1.restore s).run after).2).events := by
  have hload : (p.run before).1.apply (.load s.save) =
      ((p.run before).1.restore s, .loaded none, .none) := by
    rw [apply, load, Snapshot.load_save]
    rfl
  rw [run_append, effects_append, run, hload]
  rfl

/-- A topic with windows of two lengths that takes over a snapshot older than itself: what it closed
before stays closed. -/
theorem events_come_in_window_order_rewound :
    let low : Rule := ⟨1, some 0.0, some 2.0, .lowerIncluded, 1000, 1000, .last, none⟩
    let high : Rule := ⟨2, some 2.0, none, .lowerIncluded, 3500, 3500, .last, none⟩
    let spec : TopicSpec :=
      ⟨"boiler", "pressure", some 250, none, ⟨[low, high], by decide +kernel⟩, rfl⟩
    let older : Snapshot := ⟨.initial, .initial, some 1250⟩
    let before : List Call :=
      [.ingest ⟨300, .integer 1⟩, .advance 1250, .ingest ⟨1500, .integer 5⟩, .advance 2250]
    let after : List Call :=
      [.advance 1500, .ingest ⟨1800, .integer 7⟩, .ingest ⟨2500, .integer 1⟩, .advance 3250,
        .ingest ⟨3400, .integer 6⟩, .advance 4000]
    let fresh := new "t" ⟨none, none, "boiler", "pressure"⟩ spec .standard
    let events := (effects (fresh.run (before ++ .load older.save :: after)).2).events
    spec.start ≠ some Millis.first ∧
      events.map (fun e => (e.windowStart, e.windowEnd, e.timestamp)) =
        [(250, 1250, 1250), (1250, 2250, 2250), (2250, 3250, 3250), (250, 3750, 4000)] ∧
      events.Pairwise Event.InOrder ∧ ∀ e ∈ events, e.TellsOf spec := by
  intro low high spec older before after fresh events
  have hstart : spec.start ≠ some Millis.first := by decide +kernel
  have horder := events_come_in_window_order "t" ⟨none, none, "boiler", "pressure"⟩ spec .standard
    hstart (before ++ .load older.save :: after)
  refine ⟨hstart, ?_, horder.1, horder.2.1⟩
  show (Effect.events _).map _ = _
  rw [events_run_load_save]
  decide +kernel

end Pipeline

end TelemetryBands
