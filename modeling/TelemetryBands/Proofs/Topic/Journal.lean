import TelemetryBands.Proofs.Ladder.Rungs
import TelemetryBands.Proofs.Publication.Logs
import TelemetryBands.Proofs.Topic.Restart
import TelemetryBands.Proofs.Topic.Settlement

/-!
# The journal of a topic

A close that is classified puts a topic into a state or keeps it there, and is published or
withheld. The journal lists these closes in the order of their evaluation. What it says follows from
the detector and the suppressor of the topic and from the closes alone, and its published entries
are the events of the topic.
-/

namespace TelemetryBands

/-- The entry of an event. -/
def Event.entry (e : Event) : Entry :=
  ⟨e.state, e.kind, e.windowEnd, true⟩

/-- What an event of a kind is a candidate for. -/
def EventKind.candidate : EventKind → Candidate
  | .transition => .transition
  | .repetition => .repetition

/-- The state that an observation is about, and whether the topic came into it or stayed in it. -/
def Observation.noted? : Observation → Option (EventKind × UInt32)
  | .nothing => none
  | .steady state => some (.repetition, state)
  | .changed _ state => some (.transition, state)

/-- A window in a state is noted: the topic stays in the state or comes into it. -/
theorem Detector.observe_state (d : Detector) (state : UInt32) :
    ∃ kind observation,
      d.observe (.state state) =
          (⟨.state state, d.transitions + if kind = .transition then 1 else 0⟩, observation) ∧
        observation.noted? = some (kind, state) ∧
        (kind = EventKind.repetition ↔ d.band = .state state) := by
  obtain ⟨band, transitions⟩ := d
  by_cases hstays : band = .state state
  · refine ⟨.repetition, .steady state, ?_, rfl, iff_of_true rfl hstays⟩
    simp [observe, hstays]
  · refine ⟨.transition, .changed band state, ?_, rfl, iff_of_false EventKind.noConfusion hstays⟩
    simp [observe, hstays]

/-- Whether a ruling publishes an event. -/
def Ruling.isPublished : Ruling → Bool
  | .published _ _ _ => true
  | _ => false

/-- Whether a ruling withholds a state that persists. -/
def Ruling.isWithheld : Ruling → Bool
  | .withheld => true
  | _ => false

namespace Standing

/-- What a close means for the band of a topic. -/
def observation (s : Standing) (l : Ladder) (c : WindowClose) : Observation :=
  match l.rules[c.ruleIndex]?, c.aggregate with
  | some rule, .ok aggregate => (s.detector.observe (l.bandOf rule aggregate)).2
  | _, _ => .nothing

/-- The entry of a close, if it is classified. -/
def entryFor? (s : Standing) (l : Ladder) (c : WindowClose) : Option Entry :=
  (s.observation l c).noted?.map fun (kind, state) =>
    ⟨state, kind, c.span.stop, (s.judge l c).2.isPublished⟩

/-- The entries of closes in their order. -/
def journal (s : Standing) (l : Ladder) : List WindowClose → List Entry
  | [] => []
  | c :: closes => (s.entryFor? l c).toList ++ (s.judge l c).1.journal l closes

theorem journal_append (s : Standing) (l : Ladder) (first second : List WindowClose) :
    s.journal l (first ++ second) =
      s.journal l first ++ (s.judgeAll l first).1.journal l second := by
  induction first generalizing s with
  | nil => rfl
  | cons c first ih =>
    rw [List.cons_append, journal, journal, ih, judgeAll_cons, List.append_assoc]

theorem journal_concat (s : Standing) (l : Ladder) (closes : List WindowClose) (c : WindowClose) :
    s.journal l (closes ++ [c]) =
      s.journal l closes ++ ((s.judgeAll l closes).1.entryFor? l c).toList := by
  rw [journal_append, journal, journal, List.append_nil]

/-- What the suppressor makes of a close that puts the topic into a state or keeps it there. -/
def considered (s : Standing) (l : Ladder) (c : WindowClose) (kind : EventKind) (state : UInt32) :
    Suppressor × Decision :=
  s.suppressor.consider state kind.candidate (l.repeatPolicy? state) c.span.stop

/-- The ruling on a close that the suppressor decides about. -/
def rulingOf (state : UInt32) (kind : EventKind) (aggregate : Aggregate) : Decision → Ruling
  | .deliver => .published state kind aggregate
  | .suppress => .withheld

/-- A close puts the topic into a state of the ladder or keeps it there, and the suppressor decides
whether it is published. -/
structure Enters (s : Standing) (l : Ladder) (c : WindowClose) (kind : EventKind) (state : UInt32) :
    Prop where
  known : ∃ rule ∈ l.rules, rule.state = state
  stays_iff : kind = .repetition ↔ s.detector.band = .state state
  detector_eq : (s.judge l c).1.detector =
    ⟨.state state, s.detector.transitions + if kind = .transition then 1 else 0⟩
  suppressor_eq : (s.judge l c).1.suppressor = (s.considered l c kind state).1
  ruling_eq : ∃ aggregate, (s.judge l c).2 =
    rulingOf state kind aggregate (s.considered l c kind state).2
  entry_eq : s.entryFor? l c =
    some ⟨state, kind, c.span.stop, decide ((s.considered l c kind state).2 = .deliver)⟩

theorem publish_eq (s : Standing) (l : Ladder) (state : UInt32) (kind : EventKind)
    (aggregate : Aggregate) (now : Millis) :
    s.publish l state kind.candidate kind aggregate now =
      let (suppressor, decision) :=
        s.suppressor.consider state kind.candidate (l.repeatPolicy? state) now
      ({ s with suppressor }, rulingOf state kind aggregate decision) := by
  unfold publish
  obtain ⟨suppressor, decision⟩ :=
    s.suppressor.consider state kind.candidate (l.repeatPolicy? state) now
  cases decision <;> rfl

/-- An aggregate whose band is noted goes to the suppressor. -/
theorem settle_eq {s : Standing} {l : Ladder} {rule : Rule} {aggregate : Aggregate} {now : Millis}
    {detector : Detector} {observation : Observation} {kind : EventKind} {state : UInt32}
    (hobserve : s.detector.observe (l.bandOf rule aggregate) = (detector, observation))
    (hnoted : observation.noted? = some (kind, state)) :
    s.settle l rule aggregate now =
      publish { s with detector } l state kind.candidate kind aggregate now := by
  unfold settle
  rw [hobserve]
  cases observation with
  | nothing => cases hnoted
  | steady state =>
    cases hnoted
    rfl
  | changed left state =>
    cases hnoted
    rfl

theorem isPublished_rulingOf (state : UInt32) (kind : EventKind) (aggregate : Aggregate)
    (decision : Decision) :
    (rulingOf state kind aggregate decision).isPublished = decide (decision = .deliver) := by
  cases decision <;> rfl

/-- The band of an aggregate is none or the state of a rule. -/
theorem exists_rule_of_bandOf {l : Ladder} {rule : Rule} (hrule : rule ∈ l.rules)
    {aggregate : Aggregate} {state : UInt32} (h : l.bandOf rule aggregate = .state state) :
    ∃ r ∈ l.rules, r.state = state := by
  cases aggregate with
  | value x =>
    obtain ⟨r, hr, -, hstate⟩ := Ladder.exists_contains_of_classify h
    exact ⟨r, hr, hstate⟩
  | share percent reached =>
    cases reached with
    | false => cases h
    | true => exact ⟨rule, hrule, Band.state.inj h⟩

/-- A close whose aggregate belongs to a state puts the topic into it or keeps it there. -/
theorem enters_of_bandOf {s : Standing} {l : Ladder} {c : WindowClose} {rule : Rule}
    {aggregate : Aggregate} {state : UInt32} (hrule : l.rules[c.ruleIndex]? = some rule)
    (haggregate : c.aggregate = .ok aggregate) (hband : l.bandOf rule aggregate = .state state) :
    ∃ kind, s.Enters l c kind state := by
  have hknown := exists_rule_of_bandOf (List.mem_of_getElem? hrule) hband
  obtain ⟨kind, seen, hobserve, hnoted, hstays⟩ := s.detector.observe_state state
  rw [← hband] at hobserve
  have hjudge : s.judge l c =
      (⟨⟨.state state, s.detector.transitions + if kind = .transition then 1 else 0⟩,
          (s.considered l c kind state).1⟩,
        rulingOf state kind aggregate (s.considered l c kind state).2) := by
    simp only [judge, hrule, haggregate]
    rw [settle_eq hobserve hnoted, publish_eq, hband]
    rfl
  have hobservation : s.observation l c = seen := by
    simp only [observation, hrule, haggregate, hobserve]
  refine ⟨kind, hknown, hstays, ?_, ?_, ⟨aggregate, ?_⟩, ?_⟩
  · rw [hjudge]
  · rw [hjudge]
  · rw [hjudge]
  · rw [entryFor?, hobservation, hnoted, hjudge, Option.map_some, isPublished_rulingOf]

/-- All that a close can do: nothing, or put the topic into a state or keep it there. -/
theorem judge_cases (s : Standing) (l : Ladder) (c : WindowClose) :
    (s.entryFor? l c = none ∧ (s.judge l c).1 = s ∧
        (s.judge l c).2.isPublished = false ∧ (s.judge l c).2.isWithheld = false) ∨
      ∃ kind state, s.Enters l c kind state := by
  cases hrule : l.rules[c.ruleIndex]? with
  | none =>
    left
    simp [entryFor?, observation, Observation.noted?, judge, hrule, Ruling.isPublished,
      Ruling.isWithheld]
  | some rule =>
    cases haggregate : c.aggregate with
    | error failure =>
      left
      simp [entryFor?, observation, Observation.noted?, judge, hrule, haggregate,
        Ruling.isPublished, Ruling.isWithheld]
    | ok aggregate =>
      cases hband : l.bandOf rule aggregate with
      | unclassified =>
        left
        simp [entryFor?, observation, Observation.noted?, judge, settle, Detector.observe, hrule,
          haggregate, hband, Ruling.isPublished, Ruling.isWithheld]
      | state state =>
        obtain ⟨kind, henters⟩ := enters_of_bandOf (s := s) hrule haggregate hband
        exact Or.inr ⟨kind, state, henters⟩

/-- Only closes that keep the topic in its state are withheld. -/
theorem repetition_of_suppress {s : Standing} {l : Ladder} {c : WindowClose} {kind : EventKind}
    {state : UInt32} (h : (s.considered l c kind state).2 = .suppress) : kind = .repetition := by
  cases kind with
  | transition => cases h
  | repetition => rfl

/-- Every transition is published. -/
theorem published_of_transition {s : Standing} {l : Ladder} {closes : List WindowClose} {e : Entry}
    (he : e ∈ s.journal l closes) (hkind : e.kind = .transition) : e.published = true := by
  induction closes generalizing s with
  | nil => cases he
  | cons c closes ih =>
    rcases List.mem_append.mp he with he | he
    · rcases s.judge_cases l c with ⟨hentry, -, -⟩ | ⟨kind, state, henters⟩
      · rw [hentry] at he
        cases he
      · rw [henters.entry_eq, Option.toList_some, List.mem_singleton] at he
        cases hdecision : (s.considered l c kind state).2 with
        | deliver => simp [he, hdecision]
        | suppress =>
          have hrepetition := repetition_of_suppress hdecision
          rw [he, hrepetition] at hkind
          cases hkind
    · exact ih he

end Standing

namespace Pipeline

/-- The event of a close, if there is one, has the entry of the close. -/
theorem map_entry_eventFor? (p : Pipeline) (w : Millis) (s : Standing) (l : Ladder)
    (c : WindowClose) :
    (p.eventFor? w (c, (s.judge l c).2)).map Event.entry =
      (s.entryFor? l c).filter (·.published) := by
  rcases s.judge_cases l c with ⟨hentry, -, hruling, -⟩ | ⟨kind, state, henters⟩
  · rw [hentry]
    cases h : (s.judge l c).2 with
    | published state kind aggregate =>
      rw [h] at hruling
      cases hruling
    | _ => rfl
  · obtain ⟨aggregate, hruling⟩ := henters.ruling_eq
    rw [hruling, henters.entry_eq]
    cases (s.considered l c kind state).2 with
    | deliver => rfl
    | suppress => rfl

/-- The events of closes are the published entries of their journal. -/
theorem map_entry_effectOf (p : Pipeline) (w : Millis) (s : Standing) (l : Ladder)
    (closes : List WindowClose) :
    (p.effectOf w (s.judgeAll l closes).2).events.map Event.entry =
      (s.journal l closes).filter (·.published) := by
  induction closes generalizing s with
  | nil => rfl
  | cons c closes ih =>
    have hevent := p.map_entry_eventFor? w s l c
    have hrest := ih (s.judge l c).1
    rw [Standing.judgeAll_cons, Standing.journal, List.filter_append, ← hrest,
      ← Option.toList_filter, ← hevent]
    simp only [effectOf, List.filterMap_cons]
    cases p.eventFor? w (c, (s.judge l c).2) <;> rfl

/-- The closes that a topic evaluates because a sample of a time moves its watermark. -/
def followed (p : Pipeline) (t : Millis) : List WindowClose :=
  match p.policy with
  | .manual => []
  | .eventTime lateness => p.evaluated ((p.latestWith t).satSub lateness)

/-- The closes that traffic makes a topic evaluate, in their order. -/
def prompted (p : Pipeline) : Traffic → List WindowClose
  | .watermark w => p.evaluated w
  | .sample s =>
    if p.deleted || !p.spec.inRange s.time then [] else (p.offer s).1.followed s.time

theorem followed_offered (p : Pipeline) (s : Sample) (counts : TopicCounts) (t : Millis) :
    (p.offered s counts).followed t = (p.offer s).1.followed t := by
  have hoffer : (p.offer s).1 =
      { p with aggregators := p.aggregators.map fun a => (a.add s.time s.value).1 } := by
    rw [offer, List.map_map]
    rfl
  rw [hoffer]
  rfl

/-- All closes that a topic evaluates under traffic, in their order. -/
def history (p : Pipeline) : List Traffic → List WindowClose
  | [] => []
  | t :: traffic => p.prompted t ++ (p.apply t.call).1.history traffic

/-- The journal of a topic under traffic. -/
def journal (p : Pipeline) (traffic : List Traffic) : List Entry :=
  p.standing.journal p.spec.ladder (p.history traffic)

/-- Closes were evaluated: a topic has become another one and published events. -/
structure Evaluates (p q : Pipeline) (closes : List WindowClose) (events : List Event) : Prop where
  spec_eq : q.spec = p.spec
  standing_eq : q.standing = (p.standing.judgeAll p.spec.ladder closes).1
  entries : events.map Event.entry =
    (p.standing.journal p.spec.ladder closes).filter (·.published)

namespace Evaluates

variable {p q r : Pipeline} {closes closes' : List WindowClose} {events events' : List Event}

theorem nothing (hspec : q.spec = p.spec) (hstanding : q.standing = p.standing) :
    p.Evaluates q [] [] :=
  ⟨hspec, hstanding, rfl⟩

theorem trans (h : p.Evaluates q closes events) (h' : q.Evaluates r closes' events') :
    p.Evaluates r (closes ++ closes') (events ++ events') where
  spec_eq := h'.spec_eq.trans h.spec_eq
  standing_eq := by
    rw [h'.standing_eq, h.standing_eq, h.spec_eq, Standing.judgeAll_append]
  entries := by
    rw [List.map_append, h.entries, h'.entries, h.standing_eq, h.spec_eq, Standing.journal_append,
      List.filter_append]

/-- A watermark evaluates the closes that it is due to evaluate. -/
theorem advance (p : Pipeline) (w : Millis) :
    p.Evaluates (p.advance w).1 (p.evaluated w) (p.advance w).2.events := by
  cases hskips : p.skips w with
  | true =>
    rw [advance_of_skips hskips, evaluated, if_pos hskips]
    exact nothing rfl rfl
  | false =>
    rw [advance_of_new hskips, evaluated, if_neg (Bool.eq_false_iff.mp hskips)]
    exact ⟨rfl, rfl, p.map_entry_effectOf w p.standing p.spec.ladder (p.due w)⟩

theorem follow (p : Pipeline) (t : Millis) :
    p.Evaluates (p.follow t).1 (p.followed t) (p.follow t).2.events := by
  cases hpolicy : p.policy with
  | manual =>
    simp only [Pipeline.follow, followed, hpolicy]
    exact nothing rfl rfl
  | eventTime lateness =>
    have hfollowed : p.followed t = p.evaluated ((p.latestWith t).satSub lateness) := by
      rw [followed, hpolicy]
    rw [follow_of_eventTime hpolicy, hfollowed]
    have hseen : p.Evaluates { p with latestSeen := some (p.latestWith t) } [] [] :=
      nothing rfl rfl
    exact hseen.trans (advance _ _)

/-- Traffic evaluates the closes that it prompts. -/
theorem apply (p : Pipeline) (t : Traffic) :
    p.Evaluates (p.apply t.call).1 (p.prompted t) (p.apply t.call).2.2.events := by
  cases t with
  | watermark w => exact advance p w
  | sample s =>
    show p.Evaluates (p.ingest s).1
      (if p.deleted || !p.spec.inRange s.time then [] else (p.offer s).1.followed s.time)
      (p.ingest s).2.2.events
    refine p.ingest_cases (motive := fun q => p.Evaluates q.1
      (if p.deleted || !p.spec.inRange s.time then [] else (p.offer s).1.followed s.time)
      q.2.2.events) s (fun hdeleted => ?_) (fun hdeleted hin => ?_) fun hdeleted hin => ?_
    · rw [hdeleted]
      exact nothing rfl rfl
    · rw [hdeleted, hin]
      exact nothing rfl rfl
    · have hoffered : p.Evaluates (p.offered s (p.countsWith s)) [] [] := nothing rfl rfl
      have hfollow := hoffered.trans (follow (p.offered s (p.countsWith s)) s.time)
      rw [followed_offered] at hfollow
      rw [hdeleted, hin]
      exact hfollow

/-- A topic evaluates its history. -/
theorem run (p : Pipeline) (traffic : List Traffic) :
    p.Evaluates (p.run (traffic.map Traffic.call)).1 (p.history traffic)
      (effects (p.run (traffic.map Traffic.call)).2).events := by
  induction traffic generalizing p with
  | nil => exact nothing rfl rfl
  | cons t traffic ih => exact (apply p t).trans (ih (p.apply t.call).1)

end Evaluates

end Pipeline

end TelemetryBands
