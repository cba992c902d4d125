import TelemetryBands.Ladder.Rule
import TelemetryBands.Sample

/-!
# Aggregates of windows

One number for all samples of a window. Every function but the count needs numbers: a single sample
that is none spoils the window, except for the last value, where only the last sample matters.
-/

namespace TelemetryBands

/-- A sample of a window with its place in the order of arrival. -/
structure WindowSample where
  time : Millis
  arrival : Nat
  value : SampleValue
  deriving DecidableEq, Repr

/-- What the samples of a window come to. -/
inductive Aggregate where
  /-- A number to be looked up on the whole ladder. -/
  | value (x : Float)
  /-- The percentage of the samples in the rule's own band, and whether it is high enough. -/
  | share (percent : Float) (reached : Bool)
  deriving DecidableEq, Repr

/-- The number that is published for an aggregate. -/
def Aggregate.reported : Aggregate → Float
  | .value x => x
  | .share percent _ => percent

namespace WindowSample

/-- Whether a sample is older than another, or as old and not later arrived. -/
def precedes (a b : WindowSample) : Bool :=
  a.time < b.time || (a.time == b.time && a.arrival ≤ b.arrival)

/-- The latest of two samples, if there is one already. -/
def latestOf (best : Option WindowSample) (s : WindowSample) : Option WindowSample :=
  match best with
  | none => some s
  | some b => if b.precedes s then some s else some b

/-- The sample with the greatest time, of several the one that arrived last. -/
def latest? (samples : List WindowSample) : Option WindowSample :=
  samples.foldl latestOf none

/-- The numbers of all samples in their order, or the first failure. -/
def numbers (samples : List WindowSample) : Except Failure (List Float) :=
  samples.mapM fun s => s.value.numeric

end WindowSample

namespace Aggregate

/-- The failure of a window without samples. -/
def emptyWindow : Failure :=
  ⟨.evaluation, "empty window"⟩

/-- The sum from the left, starting from the zero that changes no number. -/
def sum (xs : List Float) : Float :=
  xs.foldl (· + ·) (-0.0)

/-- The mean of a list of numbers. -/
def mean (xs : List Float) : Float :=
  sum xs / Float.ofNat xs.length

/-- The least of a list of numbers. -/
def least (xs : List Float) : Float :=
  xs.foldl (fun best x => if x < best then x else best) (1.0 / 0.0)

/-- The greatest of a list of numbers. -/
def greatest (xs : List Float) : Float :=
  xs.foldl (fun best x => if best < x then x else best) (-1.0 / 0.0)

/-- The percentage of the numbers that lie in the band of a rule. -/
def percentIn (r : Rule) (xs : List Float) : Float :=
  Float.ofNat (xs.countP r.contains) * 100.0 / Float.ofNat xs.length

/-- What a rule makes of the samples of a window. -/
def ofSamples (r : Rule) (samples : List WindowSample) : Except Failure Aggregate :=
  match WindowSample.latest? samples with
  | none => .error emptyWindow
  | some latest =>
    match r.aggregation with
    | .last => latest.value.numeric.map .value
    | .count => .ok (.value (Float.ofNat samples.length))
    | .avg => (WindowSample.numbers samples).map fun xs => .value (mean xs)
    | .sum => (WindowSample.numbers samples).map fun xs => .value (sum xs)
    | .min => (WindowSample.numbers samples).map fun xs => .value (least xs)
    | .max => (WindowSample.numbers samples).map fun xs => .value (greatest xs)
    | .matching threshold =>
      (WindowSample.numbers samples).map fun xs =>
        .share (percentIn r xs) (threshold ≤ percentIn r xs)

end Aggregate

end TelemetryBands
