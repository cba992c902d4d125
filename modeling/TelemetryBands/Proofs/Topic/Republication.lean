import TelemetryBands.Proofs.Publication.Instants
import TelemetryBands.Proofs.Topic.EventOrder
import TelemetryBands.Proofs.Topic.RateLimit
import TelemetryBands.Proofs.Window.Sharing

/-!
# Windows that are published again

On a ladder whose rules share their windows every rule closes the same windows, and each close is
classified on the whole ladder. After the first of them is published the topic is in the state of
the window, so the others are repetitions at the same instant, and pass only where the repeat policy
lets a state pass twice. A window that starts at the first instant of the clock stands apart: an
early watermark closes it before its end, and a later sample opens it again.
-/

namespace TelemetryBands

/-- The policies of a ladder are proper. -/
theorem Ladder.proper_of_repeatPolicy? (l : Ladder) (state : UInt32) :
    ∀ q ∈ l.repeatPolicy? state, q.Proper := by
  intro q hq
  obtain ⟨rule, hfind, hrepeats⟩ := Option.bind_eq_some_iff.mp hq
  exact Rule.proper_of_repeats (flaw?_of_mem (List.mem_of_find?_eq_some hfind)) q hrepeats

/-- The band that a close comes to. -/
def Ladder.bandAt (l : Ladder) (c : WindowClose) : Band :=
  match l.rules[c.ruleIndex]?, c.aggregate with
  | some rule, .ok aggregate => l.bandOf rule aggregate
  | _, _ => .unclassified

/-- Closes whose aggregates are the same number come to the same band, whatever their rules. -/
theorem Ladder.bandAt_congr {l : Ladder} {c d : WindowClose} (hc : c.ruleIndex < l.rules.length)
    (hd : d.ruleIndex < l.rules.length) (h : d.aggregate = c.aggregate)
    (hvalue : ∀ aggregate, c.aggregate = .ok aggregate → ∃ x, aggregate = .value x) :
    l.bandAt d = l.bandAt c := by
  rw [bandAt, bandAt, h, List.getElem?_eq_getElem hc, List.getElem?_eq_getElem hd]
  cases haggregate : c.aggregate with
  | error failure => rfl
  | ok aggregate =>
    obtain ⟨x, rfl⟩ := hvalue aggregate haggregate
    rfl

/-- A ruling that publishes at most a repetition of a state, as the policy lets it pass twice. -/
def Ruling.OnlyRepeats (ruling : Ruling) (l : Ladder) (state : UInt32) : Prop :=
  ∀ state' kind aggregate, ruling = .published state' kind aggregate →
    state' = state ∧ kind = .repetition ∧ ∃ q ∈ l.repeatPolicy? state, q.Redoubles

namespace Standing

/-- A topic has published the state that it is in at an instant. -/
structure Told (s : Standing) (l : Ladder) (state : UInt32) (now : Millis) : Prop where
  band_eq : s.detector.band = .state state
  sated : (s.suppressor.recordOf state).Sated (l.repeatPolicy? state) now

variable {s : Standing} {l : Ladder} {c : WindowClose} {kind : EventKind} {state : UInt32}

/-- A close that comes to a state puts the topic into it or keeps it there. -/
theorem enters_of_bandAt (h : l.bandAt c = .state state) : ∃ kind, s.Enters l c kind state := by
  unfold Ladder.bandAt at h
  split at h
  · rename_i rule aggregate hrule haggregate
    exact enters_of_bandOf hrule haggregate h
  · cases h

/-- What is published is the state that the topic comes into or stays in. -/
theorem enters_of_published {aggregate : Aggregate}
    (h : (s.judge l c).2 = .published state kind aggregate) : s.Enters l c kind state := by
  rcases s.judge_cases l c with ⟨-, -, hnot, -⟩ | ⟨kind', state', henters⟩
  · rw [h] at hnot
    cases hnot
  · obtain ⟨found, hruling⟩ := henters.ruling_eq
    rw [h] at hruling
    cases hdecision : (s.considered l c kind' state').2 with
    | deliver =>
      rw [hdecision] at hruling
      cases hruling
      exact henters
    | suppress =>
      rw [hdecision] at hruling
      cases hruling

/-- What is published is the aggregate of the close, in the band that it comes to. -/
theorem of_published {aggregate : Aggregate}
    (h : (s.judge l c).2 = .published state kind aggregate) :
    c.aggregate = .ok aggregate ∧ l.bandAt c = .state state := by
  cases hrule : l.rules[c.ruleIndex]? with
  | none =>
    rw [judge, hrule] at h
    cases h
  | some rule =>
    cases hok : c.aggregate with
    | error failure =>
      rw [judge, hrule, hok] at h
      cases h
    | ok found =>
      have hband : l.bandAt c = l.bandOf rule found := by
        rw [Ladder.bandAt, hrule, hok]
      rw [judge, hrule, hok] at h
      simp only at h
      cases hfound : l.bandOf rule found with
      | unclassified =>
        rw [settle, hfound] at h
        cases h
      | state entered =>
        obtain ⟨kind', observation, hobserve, hnoted, -⟩ := s.detector.observe_state entered
        rw [← hfound] at hobserve
        rw [settle_eq hobserve hnoted, publish_eq] at h
        have hruling : rulingOf entered kind' found (s.suppressor.consider entered kind'.candidate
            (l.repeatPolicy? entered) c.span.stop).2 = .published state kind aggregate := h
        cases hdecision : (s.suppressor.consider entered kind'.candidate (l.repeatPolicy? entered)
            c.span.stop).2 with
        | deliver =>
          rw [hdecision] at hruling
          cases hruling
          exact ⟨rfl, hband.trans hfound⟩
        | suppress =>
          rw [hdecision] at hruling
          cases hruling

/-- After a publication the topic has told its state at the instant of the close. -/
theorem told_of_published {aggregate : Aggregate}
    (h : (s.judge l c).2 = .published state kind aggregate) :
    (s.judge l c).1.Told l state c.span.stop := by
  have henters := enters_of_published h
  obtain ⟨found, hruling⟩ := henters.ruling_eq
  have hproper := l.proper_of_repeatPolicy? state
  have hdelivered : (s.considered l c kind state).2 = .deliver := by
    cases hdecision : (s.considered l c kind state).2 with
    | deliver => rfl
    | suppress =>
      rw [h, hdecision] at hruling
      cases hruling
  refine ⟨by rw [henters.detector_eq], ?_⟩
  rw [henters.suppressor_eq, considered, Suppressor.recordOf_consider, if_pos rfl]
  apply PublicationRecord.sated_tally
  cases kind with
  | transition => exact PublicationRecord.sated_enter hproper
  | repetition => exact PublicationRecord.sated_of_deliver hproper (Prod.ext rfl hdelivered)

/-- Another close of that instant in the same state leaves it so, and is published again only as a
repetition that the policy lets pass twice. -/
theorem Told.judge {now : Millis} (h : s.Told l state now) (hstop : c.span.stop = now)
    (hband : l.bandAt c = .state state) :
    (s.judge l c).1.Told l state now ∧ (s.judge l c).2.OnlyRepeats l state := by
  obtain ⟨kind, henters⟩ := enters_of_bandAt (s := s) hband
  obtain rfl : kind = .repetition := henters.stays_iff.mpr h.band_eq
  have hproper := l.proper_of_repeatPolicy? state
  have hconsidered : (s.considered l c .repetition state).2 =
      ((s.suppressor.recordOf state).repeated (l.repeatPolicy? state) now).2 := by
    rw [← hstop]
    rfl
  refine ⟨⟨by rw [henters.detector_eq], ?_⟩, fun state' kind aggregate hpublished => ?_⟩
  · rw [henters.suppressor_eq, considered, Suppressor.recordOf_consider, if_pos rfl, hstop]
    exact PublicationRecord.sated_tally (PublicationRecord.sated_repeated hproper h.sated) _
  · obtain ⟨found, hruling⟩ := henters.ruling_eq
    rw [hpublished] at hruling
    cases hdecision : (s.considered l c .repetition state).2 with
    | deliver =>
      rw [hdecision] at hruling
      cases hruling
      rw [hconsidered] at hdecision
      exact ⟨rfl, rfl, PublicationRecord.redoubles_of_deliver hproper h.sated hdecision⟩
    | suppress =>
      rw [hdecision] at hruling
      cases hruling

/-- Closes in order, the first of which are those of the instant at which the topic has told its
state: if these come to the state, they are published again only as the policy lets them. -/
theorem Told.judgeAll {now : Millis} {closes : List WindowClose} (h : s.Told l state now)
    (hsorted : closes.Pairwise fun c d => c.span.stop ≤ d.span.stop)
    (hfrom : ∀ c ∈ closes, now ≤ c.span.stop)
    (hband : ∀ c ∈ closes, c.span.stop = now → l.bandAt c = .state state) :
    ∀ ruling ∈ (s.judgeAll l closes).2, ruling.1.span.stop = now →
      ruling.2.OnlyRepeats l state := by
  induction closes generalizing s with
  | nil => exact fun ruling hruling => by cases hruling
  | cons c closes ih =>
    obtain ⟨hfirst, hrest⟩ := List.pairwise_cons.mp hsorted
    by_cases hstop : c.span.stop = now
    · obtain ⟨hnext, hrepeats⟩ := h.judge hstop (hband c List.mem_cons_self hstop)
      rw [judgeAll_cons]
      refine List.forall_mem_cons.mpr ⟨fun _ => hrepeats, ih hnext hrest ?_ ?_⟩
      · exact fun d hd => hfrom d (List.mem_cons_of_mem c hd)
      · exact fun d hd => hband d (List.mem_cons_of_mem c hd)
    · -- All closes from here on lie behind the instant.
      intro ruling hruling hnow
      have hmem : ruling.1 ∈ c :: closes := by
        rw [← s.map_fst_judgeAll l (c :: closes)]
        exact List.mem_map_of_mem hruling
      have hc := hfrom c List.mem_cons_self
      have hne : c.span.stop.val ≠ now.val := fun heq => hstop (Millis.ext heq)
      rcases List.mem_cons.mp hmem with heq | hmem
      · rw [heq] at hnow
        exact absurd hnow hstop
      · have hlater := hfirst _ hmem
        rw [Millis.le_def] at hc hlater
        rw [hnow] at hlater
        omega

/-- Where closes of one instant come to one band, what was published at the instant is published
again only as the policy lets it. -/
theorem pairwise_judgeAll {closes : List WindowClose}
    (hsorted : closes.Pairwise fun c d => c.span.stop ≤ d.span.stop)
    (hband : ∀ c ∈ closes, ∀ d ∈ closes, d.span.stop = c.span.stop → l.bandAt d = l.bandAt c) :
    (s.judgeAll l closes).2.Pairwise fun c d => d.1.span.stop = c.1.span.stop →
      ∀ state kind aggregate, c.2 = .published state kind aggregate → d.2.OnlyRepeats l state := by
  induction closes generalizing s with
  | nil => exact List.Pairwise.nil
  | cons c closes ih =>
    obtain ⟨hfirst, hrest⟩ := List.pairwise_cons.mp hsorted
    rw [judgeAll_cons]
    refine List.pairwise_cons.mpr ⟨?_, ih hrest ?_⟩
    · intro d hd hstop state kind aggregate hpublished
      have hstate := (of_published hpublished).2
      refine (told_of_published hpublished).judgeAll hrest hfirst (fun e he heq => ?_) d hd hstop
      rw [← hstate]
      exact hband c List.mem_cons_self e (List.mem_cons_of_mem c he) heq
    · exact fun d hd e he =>
        hband d (List.mem_cons_of_mem c hd) e (List.mem_cons_of_mem c he)

/-- The rulings on closes publish the aggregates of the closes, in the bands that these come to. -/
theorem of_mem_judgeAll {closes : List WindowClose} {ruling : WindowClose × Ruling}
    (hmem : ruling ∈ (s.judgeAll l closes).2) {aggregate : Aggregate}
    (h : ruling.2 = .published state kind aggregate) :
    ruling.1.aggregate = .ok aggregate ∧ l.bandAt ruling.1 = .state state := by
  induction closes generalizing s with
  | nil => cases hmem
  | cons c closes ih =>
    rw [judgeAll_cons] at hmem
    rcases List.mem_cons.mp hmem with rfl | hmem
    · exact of_published h
    · exact ih hmem

end Standing

/-- The window that an event tells of. -/
def Event.window (e : Event) : Span :=
  ⟨e.windowStart, e.windowEnd⟩

/-- An event repeats an earlier one, as the policy for its state lets it, on a ladder with another
rule that looks at the same window. -/
structure Event.Repeats (e d : Event) (l : Ladder) : Prop where
  kind_eq : e.kind = .repetition
  state_eq : e.state = d.state
  value_eq : e.value = d.value
  allowed : ∃ q ∈ l.repeatPolicy? e.state, q.Redoubles
  shared : 1 < l.rules.length

namespace Pipeline

/-- All aggregators of a topic hold the same samples in the same windows. -/
def InStep (p : Pipeline) : Prop :=
  ∀ a ∈ p.aggregators, ∀ b ∈ p.aggregators, a.InStep b

variable {p : Pipeline} {spec : TopicSpec}

/-- A new topic whose rules share their windows has its aggregators in step. -/
theorem inStep_new (name : String) (endpoint : Endpoint) {spec : TopicSpec} (settings : Settings)
    (huniform : spec.ladder.Uniform) : (new name endpoint spec settings).InStep := by
  intro a ha b hb
  obtain ⟨i, hi, rfl⟩ := List.mem_mapIdx.mp ha
  obtain ⟨j, hj, rfl⟩ := List.mem_mapIdx.mp hb
  have hri := List.getElem_mem hi
  have hrj := List.getElem_mem hj
  refine ⟨?_, rfl, rfl, rfl, rfl⟩
  simp only [Aggregator.new, huniform.size_eq _ hri _ hrj, huniform.offset_eq _ hri _ hrj]

namespace InStep

/-- What all aggregators do alike keeps them in step. -/
theorem of_map {q : Pipeline} (h : p.InStep) (f : Aggregator → Aggregator)
    (hmap : q.aggregators = p.aggregators.map f)
    (hstep : ∀ a b : Aggregator, a.InStep b → (f a).InStep (f b)) : q.InStep := by
  intro a ha b hb
  rw [hmap] at ha hb
  obtain ⟨a', ha', rfl⟩ := List.mem_map.mp ha
  obtain ⟨b', hb', rfl⟩ := List.mem_map.mp hb
  exact hstep a' b' (h a' ha' b' hb')

theorem closeThrough {q : Pipeline} (h : p.InStep) (w : Millis)
    (hmap : q.aggregators = p.aggregators.map fun a => (a.closeThrough w).1) : q.InStep :=
  h.of_map _ hmap fun _ _ hab => hab.closeThrough w

theorem advance (h : p.InStep) (w : Millis) : (p.advance w).1.InStep :=
  p.advance_cases (motive := fun q => q.1.InStep) w (fun _ => h) fun _ => h.closeThrough w rfl

theorem follow (h : p.InStep) (t : Millis) : (p.follow t).1.InStep := by
  have hseen : ({ p with latestSeen := some (p.latestWith t) } : Pipeline).InStep := h
  exact p.follow_cases (motive := fun q => q.1.InStep) t h hseen.advance

theorem offered (h : p.InStep) (s : Sample) (counts : TopicCounts) : (p.offered s counts).InStep :=
  h.of_map _ rfl fun _ _ hab => hab.add s.time s.value

theorem restore (h : p.InStep) (s : Snapshot) : (p.restore s).InStep := by
  unfold Pipeline.restore
  cases s.watermark with
  | none => exact h
  | some w =>
    refine h.closeThrough w ?_
    simp [restoreWatermark, Pipeline.closeThrough]

/-- Every call keeps the aggregators in step. -/
theorem apply (h : p.InStep) (call : Call) : (p.apply call).1.InStep := by
  cases call with
  | ingest s =>
    exact p.ingest_cases (motive := fun q => q.1.InStep) s (fun _ => h) (fun _ _ => h) fun _ _ =>
      (h.offered s _).follow s.time
  | advance w => exact h.advance w
  | subscribe id sink => exact h
  | unsubscribe id => exact h
  | load text =>
    simp only [Pipeline.apply, Pipeline.load]
    cases Snapshot.load text with
    | error failure => exact h
    | ok s => exact h.restore s
  | shutDown => exact h.of_map Aggregator.clear rfl fun _ _ hab => hab.clear

end InStep

namespace Regular

/-- Closes of one end that are due are closes of one window, and come to the same number. -/
theorem due_alike (h : p.Regular spec) (huniform : spec.ladder.Uniform) (hstep : p.InStep)
    {w : Millis} {c d : WindowClose} (hc : c ∈ p.due w) (hd : d ∈ p.due w)
    (hstop : d.span.stop = c.span.stop) :
    d.span = c.span ∧ d.aggregate = c.aggregate ∧
      ∀ aggregate, c.aggregate = .ok aggregate → ∃ x, aggregate = .value x := by
  obtain ⟨a, ha, hca⟩ := mem_due.mp hc
  obtain ⟨b, hb, hdb⟩ := mem_due.mp hd
  have hrule := h.rule_mem ha
  have hrule' := h.rule_mem hb
  exact (h.windows ha).closes_alike (h.windows hb) (hstep a ha b hb)
    (huniform.aggregation_eq _ hrule _ hrule') (huniform.numeric _ hrule) hca hdb hstop

/-- Rulings on closes of one window that are due: the later one is about another rule, and publishes
at most a repetition of what the first one has published, with the same aggregate. -/
theorem pairwise_verdict (h : p.Regular spec) (huniform : spec.ladder.Uniform) (hstep : p.InStep)
    (w : Millis) :
    (p.verdict w).2.Pairwise fun c d => d.1.span.stop = c.1.span.stop →
      d.1.aggregate = c.1.aggregate ∧ 1 < spec.ladder.rules.length ∧
        ∀ state kind aggregate, c.2 = .published state kind aggregate →
          d.2.OnlyRepeats spec.ladder state := by
  have hverdict : p.verdict w = p.standing.judgeAll spec.ladder (p.due w) := by
    rw [verdict, h.spec_eq]
  have hcloses : (p.verdict w).2.map Prod.fst = p.due w := by
    rw [hverdict, Standing.map_fst_judgeAll]
  have hsorted : (p.due w).Pairwise fun c d => c.span.stop ≤ d.span.stop := by
    refine (p.pairwise_due w).imp fun hbefore => ?_
    rw [closesBefore_iff, Millis.ext_iff] at hbefore
    rw [Millis.le_def]
    omega
  have hbands : ∀ c ∈ p.due w, ∀ d ∈ p.due w, d.span.stop = c.span.stop →
      spec.ladder.bandAt d = spec.ladder.bandAt c := by
    intro c hc d hd hstop
    obtain ⟨-, haggregate, hvalue⟩ := h.due_alike huniform hstep hc hd hstop
    exact Ladder.bandAt_congr (h.ruleIndex_lt hc) (h.ruleIndex_lt hd) haggregate hvalue
  have hrepeats := Standing.pairwise_judgeAll (s := p.standing) hsorted hbands
  rw [← hverdict] at hrepeats
  have hdistinct : (p.verdict w).2.Pairwise fun c d => c.1 ≠ d.1 := by
    rw [← List.pairwise_map (f := Prod.fst) (R := fun c d => c ≠ d), hcloses]
    exact h.nodup_due w
  refine (hrepeats.and hdistinct).imp_of_mem fun {c d} hc hd hcd hstop => ?_
  have hdue : c.1 ∈ p.due w := hcloses ▸ List.mem_map_of_mem hc
  have hdue' : d.1 ∈ p.due w := hcloses ▸ List.mem_map_of_mem hd
  refine ⟨(h.due_alike huniform hstep hdue hdue' hstop).2.1, ?_, hcd.1 hstop⟩
  have hindex : c.1.ruleIndex ≠ d.1.ruleIndex :=
    fun heq => hcd.2 (h.eq_of_place hdue hdue' hstop.symm heq)
  have hlt := h.ruleIndex_lt hdue
  have hlt' := h.ruleIndex_lt hdue'
  omega

/-- What a watermark publishes about one window are repetitions, apart from the first event. -/
theorem repeats_advance (h : p.Regular spec) (huniform : spec.ladder.Uniform) (hstep : p.InStep)
    (w : Millis) :
    (p.advance w).2.events.Pairwise fun d e => e.window = d.window → e.Repeats d spec.ladder := by
  cases hskips : p.skips w with
  | true =>
    rw [advance_of_skips hskips]
    exact List.Pairwise.nil
  | false =>
    have hpublished : ∀ ruling ∈ (p.verdict w).2, ∀ state kind aggregate,
        ruling.2 = .published state kind aggregate → ruling.1.aggregate = .ok aggregate :=
      fun _ hmem _ _ _ h => (Standing.of_mem_judgeAll hmem h).1
    rw [advance_of_new hskips]
    refine ((h.pairwise_verdict huniform hstep w).imp_of_mem fun hc hd hcd =>
      And.intro (And.intro hc hd) hcd).filterMap _ ?_
    rintro ⟨c, ruling⟩ ⟨d, ruling'⟩ ⟨⟨hc, hd⟩, hcd⟩ e he e' he' hwindow
    cases ruling with
    | published state kind aggregate =>
      cases ruling' with
      | published state' kind' aggregate' =>
        obtain rfl := Option.some.inj he
        obtain rfl := Option.some.inj he'
        obtain ⟨haggregate, hshared, honly⟩ := hcd (congrArg Span.stop hwindow)
        obtain ⟨rfl, rfl, hallowed⟩ := honly state kind aggregate rfl state' kind' aggregate' rfl
        rw [hpublished _ hc _ _ _ rfl, hpublished _ hd _ _ _ rfl, Except.ok.injEq] at haggregate
        exact ⟨rfl, rfl, congrArg Aggregate.reported haggregate, hallowed, hshared⟩
      | _ => cases he'
    | _ => cases he

end Regular

theorem Regular.repeats_follow (h : p.Regular spec) (huniform : spec.ladder.Uniform)
    (hstep : p.InStep) (t : Millis) :
    (p.follow t).2.events.Pairwise fun d e => e.window = d.window → e.Repeats d spec.ladder := by
  have hseen : ({ p with latestSeen := some (p.latestWith t) } : Pipeline).Regular spec :=
    h.congr rfl rfl
  exact p.follow_cases (motive := fun q => q.2.events.Pairwise _) t List.Pairwise.nil
    (hseen.repeats_advance huniform hstep)

/-- What a call publishes about one window are repetitions, apart from the first event. -/
theorem Regular.repeats_apply (h : p.Regular spec) (huniform : spec.ladder.Uniform)
    (hstep : p.InStep) (call : Call) :
    (p.apply call).2.2.events.Pairwise
      fun d e => e.window = d.window → e.Repeats d spec.ladder := by
  cases call with
  | ingest s =>
    exact p.ingest_cases (motive := fun q => q.2.2.events.Pairwise _) s
      (fun _ => List.Pairwise.nil) (fun _ _ => List.Pairwise.nil) fun _ _ =>
        (h.offered s _).repeats_follow huniform (hstep.offered s _) s.time
  | advance w => exact h.repeats_advance huniform hstep w
  | subscribe id sink | unsubscribe id | shutDown => exact List.Pairwise.nil
  | load text =>
    simp only [Pipeline.apply]
    cases p.load text <;> exact List.Pairwise.nil

/-- What a history publishes about one window comes from one watermark, since that is passed
afterwards, unless the window starts at the first instant. -/
theorem Regular.repeats_run (h : p.Regular spec) (huniform : spec.ladder.Uniform)
    (hstep : p.InStep) (calls : List Call) :
    (effects (p.run calls).2).events.Pairwise fun d e =>
      e.window = d.window → Millis.first < e.windowStart → e.Repeats d spec.ladder := by
  induction calls generalizing p with
  | nil => exact List.Pairwise.nil
  | cons call calls ih =>
    have hnow := Issues.apply h call
    have hrest := Issues.run (h.apply call) calls
    rw [events_run_cons]
    refine List.pairwise_append.mpr ⟨?_, ih (h.apply call) (hstep.apply call), ?_⟩
    · exact (h.repeats_apply huniform hstep call).imp fun h heq _ => h heq
    intro d hd e he hwindow hfirst
    have hbegin : e.windowStart = d.windowStart := congrArg Span.start hwindow
    have hstop : e.windowEnd = d.windowEnd := congrArg Span.stop hwindow
    have hended := (hnow.told d hd (hbegin ▸ hfirst)).ended
    have hbehind := hrest.behind e he hfirst _ (hnow.passed d hd)
    rw [hstop, Millis.lt_def] at hbehind
    rw [Millis.le_def] at hended
    omega

/-- No window is published twice, unless its state is to be repeated without delay. On a ladder
whose rules share their windows and aggregate alike, and whatever the history, an event that tells
of the window of an earlier one is a repetition of that event: it has the same state and value, the
repeat policy of the state asks for no time between publications or allows several of them, and
there is another rule that closed the window. So where there is one rule, or no policy like that, no
two events tell of one window. Only the window that starts at the first instant of the clock is left
out, which a topic does not have unless it starts there itself. -/
theorem windows_are_published_once (name : String) (endpoint : Endpoint) (spec : TopicSpec)
    (settings : Settings) (huniform : spec.ladder.Uniform) (calls : List Call) :
    let events := (effects ((new name endpoint spec settings).run calls).2).events
    (events.Pairwise fun d e =>
        e.window = d.window → Millis.first < e.windowStart → e.Repeats d spec.ladder) ∧
      ((spec.ladder.rules.length = 1 ∨
          ∀ rule ∈ spec.ladder.rules, ∀ q ∈ rule.repeats, ¬ q.Redoubles) →
        ((events.filter fun e => Millis.first < e.windowStart).map Event.window).Nodup) ∧
      (spec.start ≠ some Millis.first → ∀ e ∈ events, Millis.first < e.windowStart) := by
  intro events
  have hregular := regular_new name endpoint spec settings
  have hrepeats := hregular.repeats_run huniform (inStep_new name endpoint settings huniform) calls
  refine ⟨hrepeats, fun hnone => ?_, (Issues.run hregular calls).first_lt⟩
  refine List.pairwise_map.mpr (List.pairwise_filter.mpr (hrepeats.imp fun {d e} h _ he heq => ?_))
  obtain ⟨-, -, -, ⟨q, hq, hredoubles⟩, hshared⟩ := h heq.symm (of_decide_eq_true he)
  rcases hnone with hone | hnone
  · omega
  · obtain ⟨rule, hfind, hrule⟩ := Option.bind_eq_some_iff.mp hq
    exact hnone rule (List.mem_of_find?_eq_some hfind) q hrule hredoubles

/-- What a new watermark does with closes that need no sorting. -/
def advanceInPlace (p : Pipeline) (w : Millis) : Pipeline × Effect :=
  let (standing, rulings) := p.standing.judgeAll p.spec.ladder (p.closes w)
  ((p.closed w).conclude w standing rulings, p.effectOf w rulings)

/-- The events of a history that begins with a sample and with a new watermark whose closes need no
sorting. -/
theorem events_ingest_advance {p : Pipeline} {s : Sample} {w : Millis} (calls : List Call)
    (hnew : (p.ingest s).1.skips w = false)
    (hsorted : ((p.ingest s).1.closes w).Pairwise fun c d => closesBefore c d = true) :
    (effects (p.run (.ingest s :: .advance w :: calls)).2).events =
      (p.ingest s).2.2.events ++ (((p.ingest s).1.advanceInPlace w).2.events ++
        (effects (((p.ingest s).1.advanceInPlace w).1.run calls).2).events) := by
  have hadvance : (p.ingest s).1.advance w = (p.ingest s).1.advanceInPlace w := by
    rw [advance_of_new hnew, verdict, due_eq_closes hsorted]
    rfl
  rw [← hadvance]
  rfl

/-- Two rules that count the samples of the same windows, and whose states may be published
twice. -/
def countedTwice : Ladder where
  rules :=
    [⟨1, some 0.0, some 10.0, .lowerIncluded, 1000, 1000, .count, some (.count 2 none)⟩,
      ⟨2, some 10.0, none, .lowerIncluded, 1000, 1000, .count, some (.count 2 none)⟩]
  sound := by decide +kernel

theorem uniform_countedTwice : countedTwice.Uniform := by
  constructor <;> simp [countedTwice]

/-- The window of one sample is published as a transition and at once as a repetition. -/
theorem events_countedTwice :
    let spec : TopicSpec := ⟨"boiler", "pressure", none, none, countedTwice, rfl⟩
    let fresh := new "t" ⟨none, none, "boiler", "pressure"⟩ spec .standard
    let events := (effects (fresh.run [.ingest ⟨100, .integer 1⟩, .advance 1000]).2).events
    events.map Event.window = [⟨0, 1000⟩, ⟨0, 1000⟩] ∧
      events.map Event.kind = [.transition, .repetition] := by
  intro spec fresh events
  have hevents := events_ingest_advance (p := fresh) (s := ⟨100, .integer 1⟩) (w := 1000) []
    (by decide +kernel) (by decide +kernel)
  change events = _ at hevents
  rw [hevents]
  decide +kernel

/-- Two rules that look at the last sample of the same windows, and never repeat a state. -/
def lastTwice : Ladder where
  rules :=
    [⟨1, some 0.0, some 10.0, .lowerIncluded, 1000, 1000, .last, none⟩,
      ⟨2, some 10.0, none, .lowerIncluded, 1000, 1000, .last, none⟩]
  sound := by decide +kernel

theorem uniform_lastTwice : lastTwice.Uniform := by
  constructor <;> simp [lastTwice]

/-- The window that begins at the first instant is closed before its end, and takes another sample
that moves the topic to another state. -/
theorem events_lastTwice :
    let spec : TopicSpec := ⟨"boiler", "pressure", some Millis.first, none, lastTwice, rfl⟩
    let fresh := new "t" ⟨none, none, "boiler", "pressure"⟩ spec .standard
    let events := (effects (fresh.run
      [.ingest ⟨Millis.first.satAdd 100, .integer 1⟩, .advance (Millis.first.satAdd 500),
        .ingest ⟨Millis.first.satAdd 600, .integer 20⟩,
        .advance (Millis.first.satAdd 1000)]).2).events
    events.map Event.window =
        [⟨Millis.first, Millis.first.satAdd 1000⟩, ⟨Millis.first, Millis.first.satAdd 1000⟩] ∧
      events.map Event.kind = [.transition, .transition] := by
  intro spec fresh events
  have hevents := events_ingest_advance (p := fresh)
    (s := ⟨Millis.first.satAdd 100, .integer 1⟩) (w := Millis.first.satAdd 500)
    [.ingest ⟨Millis.first.satAdd 600, .integer 20⟩, .advance (Millis.first.satAdd 1000)]
    (by decide +kernel) (by decide +kernel)
  change events = _ at hevents
  rw [hevents, events_ingest_advance [] (by decide +kernel) (by decide +kernel)]
  decide +kernel

/-- A window is published twice where the policy of its state allows two publications, and where it
begins at the first instant of the clock, so that it is closed before its end and opened again. -/
theorem window_is_published_twice :
    (let spec : TopicSpec := ⟨"boiler", "pressure", none, none, countedTwice, rfl⟩
      let fresh := new "t" ⟨none, none, "boiler", "pressure"⟩ spec .standard
      let events := (effects (fresh.run [.ingest ⟨100, .integer 1⟩, .advance 1000]).2).events
      spec.ladder.Uniform ∧ ¬ (events.map Event.window).Nodup) ∧
      let spec : TopicSpec := ⟨"boiler", "pressure", some Millis.first, none, lastTwice, rfl⟩
      let fresh := new "t" ⟨none, none, "boiler", "pressure"⟩ spec .standard
      let events := (effects (fresh.run
        [.ingest ⟨Millis.first.satAdd 100, .integer 1⟩, .advance (Millis.first.satAdd 500),
          .ingest ⟨Millis.first.satAdd 600, .integer 20⟩,
          .advance (Millis.first.satAdd 1000)]).2).events
      spec.ladder.Uniform ∧ (∀ rule ∈ spec.ladder.rules, rule.repeats = none) ∧
        ¬ (events.map Event.window).Nodup := by
  constructor
  · intro spec fresh events
    refine ⟨uniform_countedTwice, fun hnodup => ?_⟩
    rw [events_countedTwice.1] at hnodup
    exact absurd hnodup (by decide)
  · intro spec fresh events
    refine ⟨uniform_lastTwice, by simp [spec, lastTwice], fun hnodup => ?_⟩
    rw [events_lastTwice.1] at hnodup
    exact absurd hnodup (by decide)

/-- The second event of the window repeats the first one. -/
theorem windows_are_published_once_repeated :
    let spec : TopicSpec := ⟨"boiler", "pressure", none, none, countedTwice, rfl⟩
    let fresh := new "t" ⟨none, none, "boiler", "pressure"⟩ spec .standard
    let events := (effects (fresh.run [.ingest ⟨100, .integer 1⟩, .advance 1000]).2).events
    spec.ladder.Uniform ∧
      ∃ d e, events = [d, e] ∧ e.window = d.window ∧ e.Repeats d spec.ladder := by
  intro spec fresh events
  have hstart : spec.start ≠ some Millis.first := by
    rintro ⟨⟩
  refine ⟨uniform_countedTwice, ?_⟩
  obtain ⟨hrepeats, -, hfirst⟩ := windows_are_published_once "t"
    ⟨none, none, "boiler", "pressure"⟩ spec .standard uniform_countedTwice
    [.ingest ⟨100, .integer 1⟩, .advance 1000]
  change events.Pairwise _ at hrepeats
  have hlate : ∀ e ∈ events, Millis.first < e.windowStart := hfirst hstart
  have hwindows : events.map Event.window = [⟨0, 1000⟩, ⟨0, 1000⟩] := events_countedTwice.1
  obtain ⟨d, rest, hevents, hd, hrest⟩ := List.map_eq_cons_iff.mp hwindows
  obtain ⟨e, hrest, he⟩ := List.map_eq_singleton_iff.mp hrest
  rw [hrest] at hevents
  rw [hevents] at hrepeats hlate
  have hsame : e.window = d.window := he.trans hd.symm
  exact ⟨d, e, hevents, hsame, List.rel_of_pairwise_cons hrepeats List.mem_cons_self hsame
    (hlate e (List.mem_cons_of_mem d List.mem_cons_self))⟩

end Pipeline

end TelemetryBands
