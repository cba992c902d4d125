import TelemetryBands.Proofs.Topic.Journal

/-!
# Events and the band

A transition is never withheld, and a window in which a topic stays in its state leaves the band
alone, whether it is published or not. So the events of a topic tell its band: it is always that of
the last event, and each event says rightly whether it leaves the state of the one before.
-/

namespace TelemetryBands

/-- The band after states were published, as the readers see it. -/
def Band.after (b : Band) (states : List UInt32) : Band :=
  (states.getLast?.map Band.state).getD b

theorem Band.after_cons (b : Band) (s : UInt32) (states : List UInt32) :
    b.after (s :: states) = (Band.state s).after states := by
  rw [after, after, List.getLast?_cons]
  cases states.getLast? <;> rfl

/-- Entries lead a detector from one value to another one: each names a state of the ladder, and
says whether the topic comes into it or was in it before. -/
inductive Leads (l : Ladder) : Detector → List Entry → Detector → Prop
  | nil (d : Detector) : Leads l d [] d
  | cons {d d' : Detector} {e : Entry} {entries : List Entry}
      (known : ∃ rule ∈ l.rules, rule.state = e.state)
      (stays_iff : e.kind = .repetition ↔ d.band = .state e.state)
      (rest : Leads l ⟨.state e.state, d.transitions + if e.kind = .transition then 1 else 0⟩
        entries d') :
      Leads l d (e :: entries) d'

namespace Leads

variable {l : Ladder} {d d' : Detector} {entries : List Entry}

/-- The band is that of the last entry. -/
theorem band_eq (h : Leads l d entries d') :
    d'.band = d.band.after (entries.map Entry.state) := by
  induction h with
  | nil d => rfl
  | cons known stays_iff rest ih => rw [ih, List.map_cons, Band.after_cons]

/-- The detector has counted the transitions among the entries. -/
theorem transitions_eq (h : Leads l d entries d') :
    d'.transitions =
      d.transitions + UInt64.ofNat (entries.countP fun e => e.kind = .transition) := by
  induction h with
  | nil d => exact (UInt64.add_zero _).symm
  | @cons d d' e entries known stays_iff rest ih =>
    rw [ih, List.countP_cons, UInt64.ofNat_add, UInt64.add_assoc]
    congr 1
    rw [UInt64.add_comm]
    by_cases hkind : e.kind = .transition <;> simp [hkind]

/-- What an entry says, by the band after the entries before it. -/
theorem of_split {before after : List Entry} {e : Entry}
    (h : Leads l d (before ++ e :: after) d') :
    (∃ rule ∈ l.rules, rule.state = e.state) ∧
      (e.kind = .repetition ↔ d.band.after (before.map Entry.state) = .state e.state) := by
  induction before generalizing d with
  | nil =>
    cases h with
    | cons known stays_iff rest => exact ⟨known, stays_iff⟩
  | cons first before ih =>
    cases h with
    | cons known stays_iff rest =>
      rw [List.map_cons, Band.after_cons]
      exact ih rest

end Leads

namespace Standing

/-- The published entries of a journal lead the detector, because a close that is withheld leaves it
as it is. -/
theorem leads_journal (s : Standing) (l : Ladder) (closes : List WindowClose) :
    Leads l s.detector ((s.journal l closes).filter (·.published))
      (s.judgeAll l closes).1.detector := by
  induction closes generalizing s with
  | nil => exact .nil _
  | cons c closes ih =>
    have hrest := ih (s.judge l c).1
    rw [journal, List.filter_append, judgeAll_cons]
    rcases s.judge_cases l c with ⟨hentry, hsame, -⟩ | ⟨kind, state, henters⟩
    · rw [hsame] at hrest ⊢
      rw [hentry]
      exact hrest
    · rw [henters.entry_eq]
      rw [henters.detector_eq] at hrest
      cases hdecision : (s.considered l c kind state).2 with
      | deliver => exact .cons henters.known henters.stays_iff hrest
      | suppress =>
        have hkind := repetition_of_suppress hdecision
        have hband := henters.stays_iff.mp hkind
        have hdetector : s.detector =
            ⟨.state state, s.detector.transitions + if kind = .transition then 1 else 0⟩ := by
          rw [hkind, if_neg EventKind.noConfusion, UInt64.add_zero, ← hband]
        rw [← hdetector] at hrest
        exact hrest

end Standing

namespace Pipeline

/-- The events of a topic track its band, whatever band it begins with. -/
theorem events_track_band (p : Pipeline) (traffic : List Traffic) :
    let outcome := p.run (traffic.map Traffic.call)
    let events := (effects outcome.2).events
    outcome.1.band = p.band.after (events.map Event.state) ∧
      outcome.1.detector.transitions = p.detector.transitions +
        UInt64.ofNat (events.countP fun e => e.kind = .transition) ∧
      (∀ e ∈ p.journal traffic, e.kind = .transition → e.published = true) ∧
      ∀ before e after, events = before ++ e :: after →
        (∃ rule ∈ p.spec.ladder.rules, rule.state = e.state) ∧
          (e.kind = .transition → Band.state e.state ≠ p.band.after (before.map Event.state)) ∧
          (e.kind = .repetition → Band.state e.state = p.band.after (before.map Event.state)) := by
  intro outcome events
  obtain ⟨-, hstanding, hentries⟩ := Evaluates.run p traffic
  have hstates : ∀ es : List Event, (es.map Event.entry).map Entry.state = es.map Event.state :=
    fun es => List.map_map
  have hleads : Leads p.spec.ladder p.detector (events.map Event.entry) outcome.1.detector := by
    have h := p.standing.leads_journal p.spec.ladder (p.history traffic)
    rw [← hentries, ← hstanding] at h
    exact h
  refine ⟨?_, ?_, fun e he => Standing.published_of_transition he, ?_⟩
  · rw [← hstates]
    exact hleads.band_eq
  · rw [hleads.transitions_eq, List.countP_map]
    rfl
  · intro before e after hsplit
    rw [hsplit, List.map_append, List.map_cons] at hleads
    obtain ⟨hknown, hstays⟩ := hleads.of_split
    rw [hstates] at hstays
    refine ⟨hknown, fun hkind hband => ?_, fun hkind => (hstays.mp hkind).symm⟩
    have hrepetition : e.kind = .repetition := hstays.mpr hband.symm
    rw [hkind] at hrepetition
    cases hrepetition

/-- Three windows, the last of which stays in its state and is withheld. -/
example :
    let low : Rule := ⟨1, some 0.0, some 2.0, .lowerIncluded, 1000, 1000, .last, none⟩
    let high : Rule := ⟨2, some 2.0, none, .lowerIncluded, 2000, 2000, .last, none⟩
    let spec : TopicSpec :=
      ⟨"boiler", "pressure", none, none, ⟨[low, high], by decide +kernel⟩, rfl⟩
    let outcome := (new "t" ⟨none, none, "boiler", "pressure"⟩ spec .standard).run
      [.ingest ⟨100, .integer 1⟩, .advance 1000, .ingest ⟨900, .integer 5⟩, .advance 2000,
        .ingest ⟨2100, .integer 5⟩, .advance 3000]
    (effects outcome.2).events.map Event.state = [1, 2] ∧ outcome.1.band = .state 2 := by
  decide +kernel

end Pipeline

end TelemetryBands
