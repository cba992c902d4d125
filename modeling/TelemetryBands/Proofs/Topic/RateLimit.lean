import TelemetryBands.Proofs.Topic.Journal

/-!
# Rates of publication

The suppressor of a topic has a record for each state, and the record of a state sees just the
closes that put the topic into the state or keep it there. So on every history of a topic the log of
a state stays within the repeat policy of its rule.
-/

namespace TelemetryBands

/-- The repeat policy of a rule without flaw is proper. -/
theorem Rule.proper_of_repeats {r : Rule} (h : r.flaw? = none) : ∀ q ∈ r.repeats, q.Proper := by
  simp only [flaw?, Option.orElse_eq_orElse, Option.orElse_eq_or, Option.or_eq_none_iff] at h
  have hrepeat : r.repeatFlaw? = none := h.2.2.2
  intro q hq
  rw [Option.mem_def] at hq
  rw [repeatFlaw?, hq] at hrepeat
  cases q with
  | duration span =>
    simp only [ite_eq_right_iff, reduceCtorEq, imp_false, Millis.lt_def, Millis.zero_val] at hrepeat
    exact Int.not_lt.mp hrepeat
  | count max period =>
    simp only at hrepeat
    split at hrepeat
    · cases hrepeat
    rename_i hmax
    refine ⟨?_, fun span hspan => ?_⟩
    · rw [← UInt32.toNat_inj, UInt32.toNat_zero] at hmax
      omega
    · obtain rfl : period = some span := hspan
      simp only [ite_eq_right_iff, reduceCtorEq, imp_false, Millis.le_def,
        Millis.zero_val] at hrepeat
      exact Int.not_le.mp hrepeat

namespace Suppressor

/-- The record of a state. -/
def recordOf (s : Suppressor) (state : UInt32) : PublicationRecord :=
  (s.records.find? state).getD .initial

/-- A candidate for a state changes the record of that state alone. -/
theorem recordOf_consider (s : Suppressor) (state other : UInt32) (candidate : Candidate)
    (policy : Option RepeatPolicy) (now : Millis) :
    (s.consider state candidate policy now).1.recordOf other =
      if state = other then
        let decided := (s.recordOf state).consider candidate policy now
        decided.1.tally decided.2
      else s.recordOf other := by
  show ((s.records.insert state _).find? other).getD .initial = _
  rw [OrderedMap.find?_insert]
  split <;> rfl

end Suppressor

/-- The entries of a state. -/
def logOf (state : UInt32) (entries : List Entry) : List Entry :=
  entries.filter (·.state == state)

theorem logOf_singleton (state : UInt32) (kind : EventKind) (t : Millis) (published : Bool) :
    logOf state [⟨state, kind, t, published⟩] = [⟨state, kind, t, published⟩] := by
  simp [logOf]

theorem logOf_singleton_of_ne {state other : UInt32} (h : other ≠ state) (kind : EventKind)
    (t : Millis) (published : Bool) : logOf state [⟨other, kind, t, published⟩] = [] := by
  simp [logOf, h]

/-- A topic has kept the log of a rule's state within the policy of the rule, and its record of the
state is that of the log. -/
structure Standing.Abides (s : Standing) (rule : Rule) (log : List Entry) : Prop where
  /-- A topic that is in the state has published it. -/
  entered : s.detector.band = .state rule.state → ∃ d, lastPublished? log = some d
  keeps : (s.suppressor.recordOf rule.state).Keeps log rule.repeats
  respected : Respected rule.repeats log
  begins : ∀ e ∈ log.head?, e.kind = .transition

namespace Standing.Abides

variable {s s' : Standing} {rule : Rule} {log : List Entry} {e : Entry}

theorem initial (rule : Rule) : (⟨.initial, .initial⟩ : Standing).Abides rule [] where
  entered := fun h => by cases h
  keeps := by
    rcases rule.repeats with _ | _ | ⟨max, period⟩
    · trivial
    · rfl
    · exact ⟨rfl, Nat.zero_le _, rfl⟩
  respected := respected_nil _
  begins := fun e he => by cases he

/-- What happens to other states leaves the log of a state as it is. -/
theorem other (h : s.Abides rule log) (hband : s'.detector.band ≠ .state rule.state)
    (hrecord : s'.suppressor.recordOf rule.state = s.suppressor.recordOf rule.state) :
    s'.Abides rule log where
  entered := fun heq => absurd heq hband
  keeps := by
    rw [hrecord]
    exact h.keeps
  respected := h.respected
  begins := h.begins

/-- The topic comes into the state. -/
theorem enter (h : s.Abides rule log) (hrule : rule.flaw? = none) (hkind : e.kind = .transition)
    (hpublished : e.published = true)
    (hrecord : s'.suppressor.recordOf rule.state =
      ((s.suppressor.recordOf rule.state).enter e.windowEnd).tally .deliver) :
    s'.Abides rule (log ++ [e]) := by
  have hstep : ((s.suppressor.recordOf rule.state).enter e.windowEnd).Keeps (log ++ [e])
      rule.repeats ∧ Respects log e rule.repeats :=
    PublicationRecord.keeps_enter (Rule.proper_of_repeats hrule) hkind hpublished
  obtain ⟨hkeeps, hrespects⟩ := hstep
  refine ⟨fun _ => ⟨e, ?_⟩, ?_, h.respected.concat hrespects, fun first hfirst => ?_⟩
  · rw [lastPublished?_concat, if_pos hpublished]
  · rw [hrecord]
    exact PublicationRecord.keeps_tally hkeeps .deliver
  · rw [List.head?_append, Option.mem_def, Option.or_eq_some_iff] at hfirst
    rcases hfirst with hfirst | ⟨-, hfirst⟩
    · exact h.begins first hfirst
    · rw [← Option.some.inj hfirst]
      exact hkind

/-- The topic stays in the state. -/
theorem stay (h : s.Abides rule log) (hrule : rule.flaw? = none)
    (hband : s.detector.band = .state rule.state) (hkind : e.kind = .repetition)
    {next : PublicationRecord} {decision : Decision}
    (hdecides : (s.suppressor.recordOf rule.state).repeated rule.repeats e.windowEnd =
      (next, decision))
    (hpublished : e.published = true ↔ decision = .deliver)
    (hrecord : s'.suppressor.recordOf rule.state = next.tally decision) :
    s'.Abides rule (log ++ [e]) := by
  obtain ⟨d, hd⟩ := h.entered hband
  obtain ⟨hkeeps, hrespects⟩ := PublicationRecord.keeps_repeated (Rule.proper_of_repeats hrule)
    h.keeps ⟨d, hd⟩ hkind hdecides hpublished
  refine ⟨fun _ => ?_, ?_, h.respected.concat hrespects, ?_⟩
  · rw [lastPublished?_concat]
    split
    · exact ⟨e, rfl⟩
    · exact ⟨d, hd⟩
  · rw [hrecord]
    exact PublicationRecord.keeps_tally hkeeps decision
  · cases log with
    | nil => cases hd
    | cons first log => exact h.begins

/-- One more close. -/
theorem judge {l : Ladder} (h : s.Abides rule log) (hrule : rule ∈ l.rules) (c : WindowClose) :
    (s.judge l c).1.Abides rule (log ++ logOf rule.state (s.entryFor? l c).toList) := by
  rcases s.judge_cases l c with ⟨hentry, hsame, -⟩ | ⟨kind, state, henters⟩
  · rw [hentry, hsame, Option.toList_none, logOf, List.filter_nil, List.append_nil]
    exact h
  · rw [henters.entry_eq, Option.toList_some]
    by_cases hstate : state = rule.state
    · subst hstate
      have hflaw := Ladder.flaw?_of_mem hrule
      have hconsidered : s.considered l c kind rule.state =
          s.suppressor.consider rule.state kind.candidate rule.repeats c.span.stop := by
        rw [considered, Ladder.repeatPolicy?_state hrule]
      have hrecord := s.suppressor.recordOf_consider rule.state rule.state kind.candidate
        rule.repeats c.span.stop
      rw [if_pos rfl, ← hconsidered, ← henters.suppressor_eq] at hrecord
      rw [logOf_singleton]
      cases kind with
      | transition => exact h.enter hflaw rfl rfl hrecord
      | repetition =>
        refine h.stay hflaw (henters.stays_iff.mp rfl) rfl rfl ?_ hrecord
        rw [hconsidered]
        exact decide_eq_true_iff
    · rw [logOf_singleton_of_ne hstate, List.append_nil]
      refine h.other ?_ ?_
      · rw [henters.detector_eq]
        exact fun heq => hstate (Band.state.inj heq)
      · rw [henters.suppressor_eq, considered, Suppressor.recordOf_consider, if_neg hstate]

/-- All closes that a new topic evaluates. -/
theorem judgeAll {l : Ladder} (hrule : rule ∈ l.rules) (closes : List WindowClose) :
    ((⟨.initial, .initial⟩ : Standing).judgeAll l closes).1.Abides rule
      (logOf rule.state ((⟨.initial, .initial⟩ : Standing).journal l closes)) := by
  induction closes using List.reverseRecOn with
  | nil => exact initial rule
  | append_singleton closes c ih =>
    have hnext := ih.judge hrule c
    rw [Standing.judgeAll_append, journal_concat, logOf, List.filter_append]
    exact hnext

end Standing.Abides

namespace Pipeline

/-- The repetitions of a state are published as its rule allows, whatever a new topic receives. The
log of a state lists the closes that put the topic into the state or kept it there. Its published
entries are the events of the state, it begins with a transition, all of its transitions are
published, and its repetitions are published and withheld as the repeat policy demands. -/
theorem repetitions_are_rate_limited (name : String) (endpoint : Endpoint) (spec : TopicSpec)
    (settings : Settings) {rule : Rule} (hrule : rule ∈ spec.ladder.rules)
    (traffic : List Traffic) :
    let fresh := new name endpoint spec settings
    let events := (effects (fresh.run (traffic.map Traffic.call)).2).events
    let log := logOf rule.state (fresh.journal traffic)
    (events.filter (·.state == rule.state)).map Event.entry = log.filter (·.published) ∧
      (∀ e ∈ log.head?, e.kind = .transition) ∧
      (∀ e ∈ log, e.kind = .transition → e.published = true) ∧
      RateLimited rule.repeats log := by
  intro fresh events log
  have hentries : events.map Event.entry = (fresh.journal traffic).filter (·.published) :=
    (Evaluates.run fresh traffic).entries
  have habides := Standing.Abides.judgeAll hrule (fresh.history traffic)
  have htransitions : ∀ e ∈ log, e.kind = .transition → e.published = true :=
    fun e he => Standing.published_of_transition (List.mem_of_mem_filter he)
  refine ⟨?_, habides.begins, htransitions, ?_⟩
  · have hfilter : (events.map Event.entry).filter (·.state == rule.state) =
        (events.filter (·.state == rule.state)).map Event.entry := List.filter_map
    rw [← hfilter, hentries, List.filter_comm]
    rfl
  · exact rateLimited_of_respected (Rule.proper_of_repeats (Ladder.flaw?_of_mem hrule))
      habides.respected htransitions

/-- Two publications in five seconds: the third window is withheld, and the last one, five seconds
after the transition, is published again. -/
theorem repetitions_are_rate_limited_counted :
    let rule : Rule :=
      ⟨1, some 0.0, none, .lowerIncluded, 1000, 1000, .count, some (.count 2 (some 5000))⟩
    let spec : TopicSpec := ⟨"boiler", "pressure", none, none, ⟨[rule], by decide +kernel⟩, rfl⟩
    let traffic : List Traffic :=
      [.sample ⟨100, .integer 1⟩, .watermark 1000, .sample ⟨1100, .integer 1⟩, .watermark 2000,
        .sample ⟨2100, .integer 1⟩, .watermark 3000, .sample ⟨5100, .integer 1⟩, .watermark 6000]
    let log : List Entry :=
      [⟨1, .transition, 1000, true⟩, ⟨1, .repetition, 2000, true⟩, ⟨1, .repetition, 3000, false⟩,
        ⟨1, .repetition, 6000, true⟩]
    rule ∈ spec.ladder.rules ∧
      logOf 1 ((new "t" ⟨none, none, "boiler", "pressure"⟩ spec .standard).journal traffic) = log ∧
      RateLimited (some (.count 2 (some 5000))) log := by
  intro rule spec traffic log
  have hrule : rule ∈ spec.ladder.rules := List.mem_singleton_self rule
  have hlog :
      logOf 1 ((new "t" ⟨none, none, "boiler", "pressure"⟩ spec .standard).journal traffic) =
        log := by
    decide +kernel
  have h := (repetitions_are_rate_limited "t" ⟨none, none, "boiler", "pressure"⟩ spec .standard
    hrule traffic).2.2.2
  refine ⟨hrule, hlog, ?_⟩
  rw [← hlog]
  exact h

end Pipeline

end TelemetryBands
