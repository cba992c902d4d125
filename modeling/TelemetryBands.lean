import TelemetryBands.Clock.Calendar
import TelemetryBands.Clock.Document
import TelemetryBands.Clock.Millis
import TelemetryBands.Clock.TimeText
import TelemetryBands.Collections.OrderedMap
import TelemetryBands.Decimal.Binary
import TelemetryBands.Decimal.Numeral
import TelemetryBands.Decimal.Reading
import TelemetryBands.Decimal.Shortest
import TelemetryBands.Delivery.Dispatcher
import TelemetryBands.Delivery.Queue
import TelemetryBands.Delivery.SubscriptionId
import TelemetryBands.Endpoint
import TelemetryBands.Failure
import TelemetryBands.Fault
import TelemetryBands.Feed
import TelemetryBands.Json.Document
import TelemetryBands.Json.Number
import TelemetryBands.Json.Quoted
import TelemetryBands.Json.Reader
import TelemetryBands.Json.Record
import TelemetryBands.Json.Token
import TelemetryBands.Json.Tree
import TelemetryBands.Json.Variant
import TelemetryBands.Json.Writer
import TelemetryBands.Ladder.Aggregation
import TelemetryBands.Ladder.Basic
import TelemetryBands.Ladder.Exclusion
import TelemetryBands.Ladder.Rule
import TelemetryBands.Main
import TelemetryBands.Message
import TelemetryBands.Program.Arguments
import TelemetryBands.Program.Checkup
import TelemetryBands.Program.Command
import TelemetryBands.Program.Definitions
import TelemetryBands.Program.Formats
import TelemetryBands.Program.Inputs
import TelemetryBands.Program.Outcome
import TelemetryBands.Program.Perform
import TelemetryBands.Program.Problem
import TelemetryBands.Program.Run
import TelemetryBands.Program.Validation
import TelemetryBands.Proofs.Clock.Saturation
import TelemetryBands.Proofs.Collections.Entries
import TelemetryBands.Proofs.Decimal.Comparison
import TelemetryBands.Proofs.Json.Integers
import TelemetryBands.Proofs.Json.Quoting
import TelemetryBands.Proofs.Json.Reading
import TelemetryBands.Proofs.Json.Records
import TelemetryBands.Proofs.Json.Scanning
import TelemetryBands.Proofs.Ladder.Rungs
import TelemetryBands.Proofs.Publication.Logs
import TelemetryBands.Proofs.Topic.Advance
import TelemetryBands.Proofs.Topic.Arrival
import TelemetryBands.Proofs.Topic.BandTracking
import TelemetryBands.Proofs.Topic.Due
import TelemetryBands.Proofs.Topic.Journal
import TelemetryBands.Proofs.Topic.Mirroring
import TelemetryBands.Proofs.Topic.RateLimit
import TelemetryBands.Proofs.Topic.Restart
import TelemetryBands.Proofs.Topic.Rewinding
import TelemetryBands.Proofs.Topic.Ruling
import TelemetryBands.Proofs.Topic.SavedText
import TelemetryBands.Proofs.Topic.Settlement
import TelemetryBands.Proofs.Topic.Ticking
import TelemetryBands.Proofs.Window.Admission
import TelemetryBands.Proofs.Window.Closing
import TelemetryBands.Proofs.Window.Contents
import TelemetryBands.Proofs.Window.Batch
import TelemetryBands.Proofs.Window.Emission
import TelemetryBands.Proofs.Window.Grid
import TelemetryBands.Proofs.Window.Latest
import TelemetryBands.Proofs.Window.Postponement
import TelemetryBands.Proofs.Window.Rearrangement
import TelemetryBands.Publication.Detector
import TelemetryBands.Publication.Event
import TelemetryBands.Publication.Suppressor
import TelemetryBands.Registry.Basic
import TelemetryBands.Registry.Calls
import TelemetryBands.Registry.Subscriptions
import TelemetryBands.Registry.Traffic
import TelemetryBands.Release
import TelemetryBands.Sample
import TelemetryBands.Session
import TelemetryBands.Settings
import TelemetryBands.Text.Blank
import TelemetryBands.Text.Casing
import TelemetryBands.Text.Digits
import TelemetryBands.Ticker
import TelemetryBands.Topic.Duration
import TelemetryBands.Topic.Pipeline
import TelemetryBands.Topic.Repetition
import TelemetryBands.Topic.RuleDraft
import TelemetryBands.Topic.Snapshot
import TelemetryBands.Topic.Spec
import TelemetryBands.Topic.Stats
import TelemetryBands.Window.Aggregate
import TelemetryBands.Window.Aggregator
import TelemetryBands.Window.Grid
import TelemetryBands.Proofs.Topic.EventOrder
import TelemetryBands.Proofs.Topic.Listening
import TelemetryBands.Proofs.Delivery.Roll
import TelemetryBands.Proofs.Registry.Tables
import TelemetryBands.Proofs.Registry.Steps
import TelemetryBands.Proofs.Registry.Consistency
import TelemetryBands.Proofs.Topic.Silence
import TelemetryBands.Proofs.Registry.Accounts
import TelemetryBands.Proofs.Registry.Deletion
import TelemetryBands.Proofs.Topic.Anonymity
import TelemetryBands.Proofs.Registry.Errands
import TelemetryBands.Proofs.Registry.Requests
import TelemetryBands.Proofs.Registry.Independence
import TelemetryBands.Proofs.Collections.Totals
import TelemetryBands.Proofs.Topic.Resumption
import TelemetryBands.Proofs.Publication.Tallies
import TelemetryBands.Proofs.Publication.Instants
import TelemetryBands.Proofs.Topic.Bookkeeping
import TelemetryBands.Proofs.Window.Sharing
import TelemetryBands.Proofs.Topic.Republication
import TelemetryBands.Proofs.Clock.Refusal
import TelemetryBands.Proofs.Window.Exactness
import TelemetryBands.Proofs.Topic.Exactness
import TelemetryBands.Proofs.Session.Answers
import TelemetryBands.Proofs.Session.Unreadable
import TelemetryBands.Proofs.Registry.Failures
import TelemetryBands.Proofs.Settings.WrittenText
import TelemetryBands.Proofs.Delivery.Identifiers
import TelemetryBands.Proofs.Registry.Lifetimes
import TelemetryBands.Proofs.Registry.Queueing
import TelemetryBands.Proofs.Session.Following
import TelemetryBands.Proofs.Session.Subscriptions
import TelemetryBands.Proofs.Window.Assignment
import TelemetryBands.Proofs.Window.ClockEnds
import TelemetryBands.Proofs.Program.Validation
import TelemetryBands.Proofs.Decimal.Rounding
import TelemetryBands.Proofs.Decimal.Finiteness
import TelemetryBands.Proofs.Window.FiniteAggregates
import TelemetryBands.Proofs.Window.Provenance
import TelemetryBands.Proofs.Json.Numerals
import TelemetryBands.Proofs.Topic.Conformity
import TelemetryBands.Proofs.Delivery.Retention
import TelemetryBands.Proofs.Registry.Density
import TelemetryBands.Proofs.Registry.Naming
import TelemetryBands.Proofs.Window.Conservation
import TelemetryBands.Proofs.Delivery.Isolation
import TelemetryBands.Proofs.Window.Spoilage
import TelemetryBands.Proofs.Topic.FaultIsolation
import TelemetryBands.Proofs.Json.Depths
import TelemetryBands.Proofs.Topic.WrittenRules
import TelemetryBands.Proofs.Topic.RuleLayouts
import TelemetryBands.Proofs.Topic.NestedRules
import TelemetryBands.Proofs.Decimal.Signs
import TelemetryBands.Proofs.Text.Ends
import TelemetryBands.Proofs.Feed.Items
import TelemetryBands.Proofs.Feed.Reader
import TelemetryBands.Proofs.Json.Printing
import TelemetryBands.Proofs.Program.Outputs
import TelemetryBands.Proofs.Session.ErrorChannel
import TelemetryBands.Proofs.Topic.Repetitions
