import TelemetryBands.Clock.Document
import TelemetryBands.Json.Variant

/-!
# Counts of topics

What a topic has counted since it was created, and the figures that are shown about it.
-/

namespace TelemetryBands

/-- What became of a sample. -/
inductive Disposition where
  /-- At least one window took it. -/
  | accepted
  /-- All its windows had closed. -/
  | late
  /-- Its time does not count. -/
  | outOfRange
  /-- No window had room for it, or none holds its time. -/
  | rejected
  /-- The topic is gone. -/
  | deleted
  deriving DecidableEq, Repr

/-- The name of what became of a sample. -/
def Disposition.name : Disposition → String
  | .accepted => "accepted"
  | .late => "late"
  | .outOfRange => "out_of_range"
  | .rejected => "rejected"
  | .deleted => "deleted"

/-- What a topic has counted. -/
structure TopicCounts where
  samplesAccepted : Nat
  lateSamples : Nat
  outOfRangeSamples : Nat
  rejectedSamples : Nat
  windowsClosed : Nat
  /-- Windows that came to an aggregate. -/
  evaluations : Nat
  published : Nat
  suppressed : Nat
  faults : Nat
  /-- Open windows that a restored watermark dropped. -/
  windowsDiscarded : Nat
  deriving DecidableEq, Repr

/-- The counts of a new topic. -/
def TopicCounts.zero : TopicCounts :=
  ⟨0, 0, 0, 0, 0, 0, 0, 0, 0, 0⟩

/-- Counts what became of a sample. -/
def TopicCounts.add (counts : TopicCounts) : Disposition → TopicCounts
  | .accepted => { counts with samplesAccepted := counts.samplesAccepted + 1 }
  | .late => { counts with lateSamples := counts.lateSamples + 1 }
  | .outOfRange => { counts with outOfRangeSamples := counts.outOfRangeSamples + 1 }
  | .rejected => { counts with rejectedSamples := counts.rejectedSamples + 1 }
  | .deleted => counts

/-- The figures that are shown about a topic. -/
structure TopicStats where
  counts : TopicCounts
  currentState : Option UInt32
  watermark : Option Millis
  subscribers : Nat
  openWindows : Nat
  deriving DecidableEq, Repr

/-- The figures as a document holds them. -/
def TopicStats.toJson (s : TopicStats) : Json :=
  .record
    [("samplesAccepted", .ofInt s.counts.samplesAccepted),
     ("lateSamples", .ofInt s.counts.lateSamples),
     ("outOfRangeSamples", .ofInt s.counts.outOfRangeSamples),
     ("rejectedSamples", .ofInt s.counts.rejectedSamples),
     ("windowsClosed", .ofInt s.counts.windowsClosed),
     ("evaluations", .ofInt s.counts.evaluations),
     ("published", .ofInt s.counts.published),
     ("suppressed", .ofInt s.counts.suppressed),
     ("faults", .ofInt s.counts.faults),
     ("windowsDiscarded", .ofInt s.counts.windowsDiscarded),
     ("currentState", .ofOption .ofWord32 s.currentState),
     ("watermark", .ofOption Millis.toJson s.watermark),
     ("subscribers", .ofInt s.subscribers),
     ("openWindows", .ofInt s.openWindows)]

end TelemetryBands
