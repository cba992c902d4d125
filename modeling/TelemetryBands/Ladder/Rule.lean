import TelemetryBands.Clock.Millis
import TelemetryBands.Ladder.Aggregation
import TelemetryBands.Ladder.Exclusion

/-!
# Rules

A rule is one rung of a topic's ladder: the state it stands for, its band, the windows it looks at,
how it aggregates them, and how often a state that persists is published again.
-/

namespace TelemetryBands

/-- How often a state that persists is published again. -/
inductive RepeatPolicy where
  /-- At most once in so many milliseconds. -/
  | duration (ms : Millis)
  /-- At most so many times, in each period if there is one. -/
  | count (max : UInt32) (period : Option Millis)
  deriving DecidableEq, Repr

/-- One rung of a ladder. -/
structure Rule where
  state : UInt32
  lower : Option Float
  upper : Option Float
  exclusion : Exclusion
  windowSize : Millis
  windowOffset : Millis
  aggregation : Aggregation
  repeats : Option RepeatPolicy
  deriving DecidableEq, Repr

namespace Rule

/-- The window length of a rule that does not say any. -/
def defaultWindow : Millis := 1000

/-- The greatest window length and offset: 366 days. -/
def longestWindow : Millis := 31622400000

/-- The most windows that one instant can lie in. -/
def windowsPerSample (r : Rule) : Int :=
  let offset := max r.windowOffset.val 1
  (max r.windowSize.val 0 + offset - 1) / offset

/-- Whether a value does not lie below the band. -/
def aboveLower (r : Rule) (x : Float) : Bool :=
  match r.lower with
  | none => true
  | some lower => if r.exclusion.includesLower then lower ≤ x else lower < x

/-- Whether a value does not lie above the band. -/
def belowUpper (r : Rule) (x : Float) : Bool :=
  match r.upper with
  | none => true
  | some upper => if r.exclusion.includesUpper then x ≤ upper else x < upper

/-- Whether a value lies in the band; a missing bound does not bound. -/
def contains (r : Rule) (x : Float) : Bool :=
  !x.isNaN && r.aboveLower x && r.belowUpper x

/-- Why a rule cannot be a rung. -/
inductive Flaw where
  | noBounds
  | infiniteBound
  | emptyBand (lower upper : Float)
  | windowSize
  | windowOffset
  | longWindow
  | percentage (threshold : Float)
  | negativeRepeat
  | zeroRepeats
  | repeatPeriod
  deriving DecidableEq, Repr

/-- The text of a flaw of the rule for a state. -/
def Flaw.text (state : UInt32) : Flaw → String
  | .noBounds => s!"rule for state {state} needs a lowerBound or an upperBound"
  | .infiniteBound => s!"rule for state {state} has a non-finite bound"
  | .emptyBand lower upper =>
    s!"rule for state {state} has an empty band [" ++ Decimal.message lower ++ ", "
      ++ Decimal.message upper ++ "]"
  | .windowSize => s!"rule for state {state} needs a positive windowSize"
  | .windowOffset => s!"rule for state {state} needs a positive windowOffset"
  | .longWindow => s!"rule for state {state} has a window longer than {longestWindow}ms"
  | .percentage threshold =>
    s!"rule for state {state} has MATCHING percentage " ++ Decimal.message threshold
      ++ " outside (0, 100]"
  | .negativeRepeat => s!"rule for state {state} has a negative repeatPub"
  | .zeroRepeats => s!"rule for state {state} has a repeatPub count of zero"
  | .repeatPeriod => s!"rule for state {state} needs a positive repeatPub period"

/-- What is wrong with the bounds, if anything: there must be one, both must be finite, and the band
between them must hold a value. -/
def boundsFlaw? (r : Rule) : Option Flaw :=
  if r.lower.isNone && r.upper.isNone then some .noBounds
  else if (r.lower.toList ++ r.upper.toList).any fun x => !Decimal.isFinite x then
    some .infiniteBound
  else
    match r.lower, r.upper with
    | some lower, some upper =>
      let point := r.exclusion == .none && lower == upper
      if upper < lower || (lower == upper && !point) then some (.emptyBand lower upper) else none
    | _, _ => none

/-- What is wrong with the windows, if anything: both lengths must be positive and not too long. -/
def windowFlaw? (r : Rule) : Option Flaw :=
  if r.windowSize ≤ 0 then some .windowSize
  else if r.windowOffset ≤ 0 then some .windowOffset
  else if longestWindow < r.windowSize ∨ longestWindow < r.windowOffset then some .longWindow
  else none

/-- What is wrong with the aggregation, if anything: a percentage must lie in (0, 100]. -/
def aggregationFlaw? (r : Rule) : Option Flaw :=
  match r.aggregation with
  | .matching threshold =>
    if 0.0 < threshold && threshold ≤ 100.0 then none else some (.percentage threshold)
  | _ => none

/-- What is wrong with the repetition, if anything. -/
def repeatFlaw? (r : Rule) : Option Flaw :=
  match r.repeats with
  | some (.duration ms) => if ms < 0 then some .negativeRepeat else none
  | some (.count max period) =>
    if max = 0 then some .zeroRepeats
    else
      match period with
      | some p => if p ≤ 0 then some .repeatPeriod else none
      | none => none
  | none => none

/-- The first thing that is wrong with a rule, if anything. -/
def flaw? (r : Rule) : Option Flaw :=
  r.boundsFlaw? <|> r.windowFlaw? <|> r.aggregationFlaw? <|> r.repeatFlaw?

end Rule

end TelemetryBands
