import TelemetryBands.Topic.Pipeline

/-!
# Rulings on closes

What the evaluation of closes decides depends on the ladder, the detector and the suppressor of a
topic alone. This file takes that decision out of `evaluate` as a function `judge` and proves that
the rest is book-keeping: counts, faults, events and their dispatch. In particular the watermark of
an evaluation is seen in the timestamps of its events and nowhere else.
-/

namespace TelemetryBands

/-- What the evaluation of a close comes to. -/
inductive Ruling where
  /-- No rule has closed a window. -/
  | void
  /-- The window came to no aggregate. -/
  | failed (rule : Rule) (failure : Failure)
  /-- The aggregate belongs to no band. -/
  | unclassified
  /-- The state persists and is not published again. -/
  | withheld
  | published (state : UInt32) (kind : EventKind) (aggregate : Aggregate)

/-- What a topic keeps about its publications: its band, and its records for the repeat policies. -/
structure Standing where
  detector : Detector
  suppressor : Suppressor
  deriving DecidableEq

/-- The band that an aggregate of a rule belongs to. -/
def Ladder.bandOf (l : Ladder) (rule : Rule) : Aggregate → Band
  | .value x => l.classify x
  | .share _ true => .state rule.state
  | .share _ false => .unclassified

namespace Standing

/-- Publishes a state or withholds it. -/
def publish (s : Standing) (l : Ladder) (state : UInt32) (candidate : Candidate) (kind : EventKind)
    (aggregate : Aggregate) (now : Millis) : Standing × Ruling :=
  match s.suppressor.consider state candidate (l.repeatPolicy? state) now with
  | (suppressor, .suppress) => ({ s with suppressor }, .withheld)
  | (suppressor, .deliver) => ({ s with suppressor }, .published state kind aggregate)

/-- Takes in the aggregate of a rule's close. -/
def settle (s : Standing) (l : Ladder) (rule : Rule) (aggregate : Aggregate) (now : Millis) :
    Standing × Ruling :=
  match s.detector.observe (l.bandOf rule aggregate) with
  | (detector, .nothing) => ({ s with detector }, .unclassified)
  | (detector, .steady state) =>
    publish { s with detector } l state .repetition .repetition aggregate now
  | (detector, .changed _ state) =>
    publish { s with detector } l state .transition .transition aggregate now

/-- Decides about one close. -/
def judge (s : Standing) (l : Ladder) (c : WindowClose) : Standing × Ruling :=
  match l.rules[c.ruleIndex]? with
  | none => (s, .void)
  | some rule =>
    match c.aggregate with
    | .error failure => (s, .failed rule failure)
    | .ok aggregate => s.settle l rule aggregate c.span.stop

/-- Decides about closes in their order. -/
def judgeAll (s : Standing) (l : Ladder) : List WindowClose → Standing × List (WindowClose × Ruling)
  | [] => (s, [])
  | c :: closes =>
    let (next, ruling) := s.judge l c
    let (final, rulings) := next.judgeAll l closes
    (final, (c, ruling) :: rulings)

theorem judgeAll_cons (s : Standing) (l : Ladder) (c : WindowClose) (closes : List WindowClose) :
    s.judgeAll l (c :: closes) =
      (((s.judge l c).1.judgeAll l closes).1,
        (c, (s.judge l c).2) :: ((s.judge l c).1.judgeAll l closes).2) := rfl

/-- Closes decided about in two parts. -/
theorem judgeAll_append (s : Standing) (l : Ladder) (first second : List WindowClose) :
    s.judgeAll l (first ++ second) =
      (((s.judgeAll l first).1.judgeAll l second).1,
        (s.judgeAll l first).2 ++ ((s.judgeAll l first).1.judgeAll l second).2) := by
  induction first generalizing s with
  | nil => rfl
  | cons c first ih =>
    rw [List.cons_append, judgeAll_cons, judgeAll_cons, ih]
    rfl

/-- What closes are decided about are the closes themselves, in their order. -/
theorem map_fst_judgeAll (s : Standing) (l : Ladder) (closes : List WindowClose) :
    (s.judgeAll l closes).2.map Prod.fst = closes := by
  induction closes generalizing s with
  | nil => rfl
  | cons c closes ih => rw [judgeAll_cons, List.map_cons, ih]

end Standing

/-- Counts a ruling. -/
def TopicCounts.rule (counts : TopicCounts) : Ruling → TopicCounts
  | .void => counts
  | .failed _ _ => { counts with faults := counts.faults + 1 }
  | .unclassified => { counts with evaluations := counts.evaluations + 1 }
  | .withheld =>
    { counts with evaluations := counts.evaluations + 1, suppressed := counts.suppressed + 1 }
  | .published _ _ _ =>
    { counts with evaluations := counts.evaluations + 1, published := counts.published + 1 }

/-- Counts rulings. -/
def TopicCounts.ruleAll (counts : TopicCounts) (rulings : List (WindowClose × Ruling)) :
    TopicCounts :=
  rulings.foldl (fun counts ruling => counts.rule ruling.2) counts

/-- Counts closed windows. -/
def TopicCounts.close (counts : TopicCounts) (n : Nat) : TopicCounts :=
  { counts with windowsClosed := counts.windowsClosed + n }

/-- The order in which closed windows and rulings are counted does not matter. -/
theorem TopicCounts.ruleAll_close (counts : TopicCounts) (n : Nat)
    (rulings : List (WindowClose × Ruling)) :
    (counts.close n).ruleAll rulings = (counts.ruleAll rulings).close n := by
  unfold ruleAll
  induction rulings generalizing counts with
  | nil => rfl
  | cons ruling rulings ih =>
    rw [List.foldl_cons, List.foldl_cons, ← ih]
    congr 1
    cases ruling.2 <;> rfl

theorem TopicCounts.ruleAll_append (counts : TopicCounts)
    (first second : List (WindowClose × Ruling)) :
    counts.ruleAll (first ++ second) = (counts.ruleAll first).ruleAll second :=
  List.foldl_append

theorem TopicCounts.close_close (counts : TopicCounts) (m n : Nat) :
    (counts.close m).close n = counts.close (m + n) := by
  simp only [close, Nat.add_assoc]

/-- Hands events to every subscriber, one after the other. -/
def Dispatcher.dispatchAll (d : Dispatcher) (events : List Event) : Dispatcher :=
  events.foldl (fun d e => (d.dispatch e).1) d

@[simp] theorem Dispatcher.length_dispatch (d : Dispatcher) (e : Event) :
    (d.dispatch e).1.subscribers.length = d.subscribers.length := by
  simp

theorem Dispatcher.dispatchAll_append (d : Dispatcher) (first second : List Event) :
    d.dispatchAll (first ++ second) = (d.dispatchAll first).dispatchAll second :=
  List.foldl_append

/-- Events make no subscriber come or go. -/
@[simp] theorem Dispatcher.length_dispatchAll (d : Dispatcher) (events : List Event) :
    (d.dispatchAll events).subscribers.length = d.subscribers.length := by
  unfold dispatchAll
  induction events generalizing d with
  | nil => rfl
  | cons e events ih => rw [List.foldl_cons, ih, length_dispatch]

namespace Pipeline

/-- What a topic keeps about its publications. -/
def standing (p : Pipeline) : Standing :=
  ⟨p.detector, p.suppressor⟩

/-- The event that a ruling publishes. -/
def eventFor? (p : Pipeline) (watermark : Millis) : WindowClose × Ruling → Option Event
  | (c, .published state kind aggregate) => some (p.eventOf state kind aggregate c watermark)
  | _ => none

/-- The fault that a ruling reports. -/
def faultFor? (p : Pipeline) : WindowClose × Ruling → Option Fault
  | (c, .failed rule failure) => some (p.evaluationFault rule c failure)
  | _ => none

/-- The effect of rulings at a watermark. -/
def effectOf (p : Pipeline) (watermark : Millis) (rulings : List (WindowClose × Ruling)) : Effect :=
  ⟨rulings.filterMap (p.eventFor? watermark), rulings.filterMap p.faultFor?⟩

/-- A topic after rulings that leave it with a new standing. -/
def conclude (p : Pipeline) (watermark : Millis) (s : Standing)
    (rulings : List (WindowClose × Ruling)) : Pipeline :=
  { p with
    detector := s.detector
    suppressor := s.suppressor
    counts := p.counts.ruleAll rulings
    dispatcher := p.dispatcher.dispatchAll (p.effectOf watermark rulings).events }

theorem bandOf_eq (p : Pipeline) (rule : Rule) (aggregate : Aggregate) :
    p.bandOf rule aggregate = p.spec.ladder.bandOf rule aggregate := by
  cases aggregate with
  | value x => rfl
  | share percent reached => cases reached <;> rfl

/-- Evaluating a close is judging it and keeping the books. -/
theorem evaluate_eq (p : Pipeline) (watermark : Millis) (c : WindowClose) :
    p.evaluate watermark c =
      let (s, ruling) := p.standing.judge p.spec.ladder c
      (p.conclude watermark s [(c, ruling)], p.effectOf watermark [(c, ruling)]) := by
  unfold evaluate Standing.judge
  cases p.spec.ladder.rules[c.ruleIndex]? with
  | none => rfl
  | some rule =>
    cases c.aggregate with
    | error failure => rfl
    | ok aggregate =>
      simp only [settle, Standing.settle, bandOf_eq, standing]
      obtain ⟨detector, observation⟩ :=
        p.detector.observe (p.spec.ladder.bandOf rule aggregate)
      cases observation with
      | nothing => rfl
      | steady state =>
        simp only [publish, Standing.publish]
        obtain ⟨suppressor, decision⟩ := p.suppressor.consider state .repetition
          (p.spec.ladder.repeatPolicy? state) c.span.stop
        cases decision <;> rfl
      | changed left state =>
        simp only [publish, Standing.publish]
        obtain ⟨suppressor, decision⟩ := p.suppressor.consider state .transition
          (p.spec.ladder.repeatPolicy? state) c.span.stop
        cases decision <;> rfl

@[simp] theorem conclude_standing (p : Pipeline) (watermark : Millis) (s : Standing)
    (rulings : List (WindowClose × Ruling)) : (p.conclude watermark s rulings).standing = s := rfl

@[simp] theorem effectOf_conclude (p : Pipeline) (watermark v : Millis) (s : Standing)
    (rulings : List (WindowClose × Ruling)) :
    (p.conclude watermark s rulings).effectOf v = p.effectOf v := rfl

theorem effectOf_append (p : Pipeline) (watermark : Millis)
    (first second : List (WindowClose × Ruling)) :
    p.effectOf watermark (first ++ second) =
      (p.effectOf watermark first).andThen (p.effectOf watermark second) := by
  simp [effectOf, Effect.andThen]

/-- Two conclusions at one watermark are one. -/
theorem conclude_conclude (p : Pipeline) (watermark : Millis) (s s' : Standing)
    (first second : List (WindowClose × Ruling)) :
    (p.conclude watermark s first).conclude watermark s' second =
      p.conclude watermark s' (first ++ second) := by
  have heffect := p.effectOf_append watermark first second
  unfold conclude
  rw [heffect]
  simp only [TopicCounts.ruleAll, Dispatcher.dispatchAll, Effect.andThen, List.foldl_append]
  rfl

/-- Evaluating closes is judging them and keeping the books. -/
theorem evaluateAll_eq (p : Pipeline) (watermark : Millis) (closes : List WindowClose) :
    p.evaluateAll watermark closes =
      (p.conclude watermark (p.standing.judgeAll p.spec.ladder closes).1
          (p.standing.judgeAll p.spec.ladder closes).2,
        p.effectOf watermark (p.standing.judgeAll p.spec.ladder closes).2) := by
  induction closes generalizing p with
  | nil => rfl
  | cons c closes ih =>
    simp only [evaluateAll, evaluate_eq, ih, Standing.judgeAll_cons, conclude_standing,
      effectOf_conclude, conclude_conclude, ← effectOf_append, List.singleton_append]
    rfl

end Pipeline

end TelemetryBands
