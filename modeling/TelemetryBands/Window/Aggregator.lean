import TelemetryBands.Collections.OrderedMap
import TelemetryBands.Window.Aggregate
import TelemetryBands.Window.Grid

/-!
# Window aggregators

An aggregator collects the samples of one rule in the windows of its grid. A window opens with its
first sample and closes when the watermark reaches its end. `add` and `closeThrough` are the two
moves; `Aggregator.apply` makes one of them, so that histories are lists of calls.
-/

namespace TelemetryBands

/-- A window that has samples and is not closed. The samples are in the order of their arrival. -/
structure OpenWindow where
  span : Span
  samples : List WindowSample
  deriving DecidableEq, Repr

/-- A window that was closed, with what its samples came to. -/
structure WindowClose where
  ruleIndex : Nat
  span : Span
  sampleCount : Nat
  aggregate : Except Failure Aggregate

/-- How many windows took a sample, had closed before it, or could not open for want of room. -/
structure Admission where
  accepted : Nat
  late : Nat
  overflowed : Nat
  deriving DecidableEq, Repr

/-- Whether a sample reached no window because they had closed. -/
def Admission.isLate (a : Admission) : Bool :=
  a.accepted == 0 && 0 < a.late

/-- What an aggregator has counted. -/
structure WindowCounts where
  samplesAccepted : Nat
  lateSamples : Nat
  overflowedSamples : Nat
  windowsClosed : Nat
  deriving DecidableEq, Repr

/-- Counts an admission. -/
def WindowCounts.add (counts : WindowCounts) (admission : Admission) : WindowCounts :=
  { counts with
    samplesAccepted := counts.samplesAccepted + if 0 < admission.accepted then 1 else 0
    lateSamples := counts.lateSamples + if admission.isLate then 1 else 0
    overflowedSamples := counts.overflowedSamples + if 0 < admission.overflowed then 1 else 0 }

/-- The samples of one rule in their windows. -/
structure Aggregator where
  ruleIndex : Nat
  rule : Rule
  grid : WindowGrid
  /-- The most windows that may be open together. -/
  maxOpen : Nat
  /-- The open windows under their starts. -/
  openWindows : OrderedMap Millis OpenWindow
  /-- The latest watermark. -/
  closedThrough : Option Millis
  /-- The number of samples offered so far. -/
  nextArrival : Nat
  counts : WindowCounts
  deriving DecidableEq, Repr

namespace Aggregator

/-- An aggregator without windows; at least one window may be open. -/
def new (ruleIndex : Nat) (rule : Rule) (origin : Millis) (maxOpen : Nat) : Aggregator where
  ruleIndex
  rule
  grid := ⟨origin, rule.windowSize, rule.windowOffset⟩
  maxOpen := max maxOpen 1
  openWindows := .empty
  closedThrough := none
  nextArrival := 0
  counts := ⟨0, 0, 0, 0⟩

/-- The spans of the open windows, ascending. -/
def openSpans (a : Aggregator) : List Span :=
  a.openWindows.values.map OpenWindow.span

/-- Whether the watermark has reached an instant. -/
def hasReached (a : Aggregator) (t : Millis) : Bool :=
  a.closedThrough.any fun w => decide (t ≤ w)

/-- What becomes of a sample in one of its windows. -/
inductive Verdict where
  | accepted
  | late
  | overflowed
  deriving DecidableEq, Repr

/-- What becomes of a sample in a window: it is late if the window has closed, and finds no room if
the window would have to open while as many as possible are open. -/
def judge (a : Aggregator) (span : Span) : Verdict :=
  if a.hasReached span.stop then .late
  else if !a.openWindows.contains span.start && a.maxOpen ≤ a.openWindows.size then .overflowed
  else .accepted

/-- Puts a sample behind the others of its window. -/
def place (a : Aggregator) (sample : WindowSample) (span : Span) : Aggregator :=
  let window := (a.openWindows.find? span.start).getD ⟨span, []⟩
  { a with
    openWindows :=
      a.openWindows.insert span.start { window with samples := window.samples ++ [sample] } }

/-- Offers a sample to one of its windows. -/
def offer (sample : WindowSample) (state : Aggregator × Admission) (span : Span) :
    Aggregator × Admission :=
  let (a, admission) := state
  match a.judge span with
  | .accepted => (a.place sample span, { admission with accepted := admission.accepted + 1 })
  | .late => (a, { admission with late := admission.late + 1 })
  | .overflowed => (a, { admission with overflowed := admission.overflowed + 1 })

/-- Offers a sample to every window that holds its time. -/
def add (a : Aggregator) (t : Millis) (value : SampleValue) : Aggregator × Admission :=
  let sample : WindowSample := ⟨t, a.nextArrival, value⟩
  let (next, admission) :=
    (a.grid.windowsContaining t).foldl (offer sample)
      ({ a with nextArrival := a.nextArrival + 1 }, ⟨0, 0, 0⟩)
  ({ next with counts := next.counts.add admission }, admission)

/-- The close of a window. -/
def closeOf (a : Aggregator) (window : OpenWindow) : WindowClose where
  ruleIndex := a.ruleIndex
  span := window.span
  sampleCount := window.samples.length
  aggregate := Aggregate.ofSamples a.rule window.samples

/-- The first start of a window that a watermark leaves open. -/
def firstOpenStart (a : Aggregator) (watermark : Millis) : Millis :=
  (watermark.satSub a.grid.size).satAdd 1

/-- Closes the windows that end at or before a watermark, the first end first. A watermark that was
reached before does nothing. -/
def closeThrough (a : Aggregator) (watermark : Millis) : Aggregator × List WindowClose :=
  if a.hasReached watermark then (a, [])
  else
    let bound := a.firstOpenStart watermark
    let closing := (a.openWindows.filterKeys fun start => decide (start < bound)).values
    ({ a with
        openWindows := a.openWindows.filterKeys fun start => decide (bound ≤ start)
        closedThrough := some watermark
        counts :=
          { a.counts with windowsClosed := a.counts.windowsClosed + closing.length } },
      closing.map a.closeOf)

/-- Drops all open windows. -/
def clear (a : Aggregator) : Aggregator :=
  { a with openWindows := .empty }

/-- A call on an aggregator. -/
inductive Call where
  | add (t : Millis) (value : SampleValue)
  | close (watermark : Millis)
  | clear
  deriving DecidableEq, Repr

/-- What a call answers. -/
inductive Answer where
  | admission (a : Admission)
  | closes (l : List WindowClose)
  | cleared

/-- Makes one call. -/
def apply (a : Aggregator) : Call → Aggregator × Answer
  | .add t value => let (a, admission) := a.add t value; (a, .admission admission)
  | .close watermark => let (a, closes) := a.closeThrough watermark; (a, .closes closes)
  | .clear => (a.clear, .cleared)

/-- Makes a list of calls. -/
def run (a : Aggregator) : List Call → Aggregator × List Answer
  | [] => (a, [])
  | call :: calls =>
    let (next, answer) := a.apply call
    let (final, answers) := next.run calls
    (final, answer :: answers)

end Aggregator

end TelemetryBands
