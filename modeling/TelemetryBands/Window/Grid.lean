import TelemetryBands.Clock.Millis

/-!
# Hopping windows

Windows of one length start at an origin and again every `offset` milliseconds after it, so they
overlap when the length is greater than the offset. A window holds its start and the instants up to
its end, which stops at the last instant of the clock.
-/

namespace TelemetryBands

/-- The instants from `start` up to and without `stop`. -/
structure Span where
  start : Millis
  stop : Millis
  deriving DecidableEq, Repr

/-- Whether an instant lies in a span. -/
def Span.contains (s : Span) (t : Millis) : Bool :=
  s.start ≤ t && t < s.stop

/-- Where the windows of a rule lie. -/
structure WindowGrid where
  origin : Millis
  size : Millis
  offset : Millis
  deriving DecidableEq, Repr

namespace WindowGrid

/-- The time from the origin to an instant that is not before it, as long as the clock can show
it. -/
def elapsed? (g : WindowGrid) (t : Millis) : Option Millis :=
  (Millis.ofInt? (t.val - g.origin.val)).filter fun elapsed => decide (0 ≤ elapsed)

/-- The number of the first window that can hold an instant. -/
def firstIndex (g : WindowGrid) (elapsed : Millis) : Int :=
  max ((elapsed.val - g.size.val) / g.offset.val + 1) 0

/-- The number of the last window that can hold an instant. -/
def lastIndex (g : WindowGrid) (elapsed : Millis) : Int :=
  elapsed.val / g.offset.val

/-- Where a window starts, by its number. -/
def startAt (g : WindowGrid) (k : Int) : Int :=
  g.origin.val + k * g.offset.val

/-- The instants of a window, by its number. -/
def spanAt (g : WindowGrid) (k : Int) : Span :=
  let start := Millis.clamp (g.startAt k)
  ⟨start, start.satAdd g.size⟩

/-- The integers from `first` to `last`, ascending. -/
def indices (first last : Int) : List Int :=
  (List.range (last + 1 - first).toNat).map fun (i : Nat) => first + (i : Int)

/-- The windows that hold an instant, ascending. -/
def windowsContaining (g : WindowGrid) (t : Millis) : List Span :=
  match g.elapsed? t with
  | none => []
  | some elapsed =>
    ((indices (g.firstIndex elapsed) (g.lastIndex elapsed)).map g.spanAt).filter (·.contains t)

end WindowGrid

end TelemetryBands
