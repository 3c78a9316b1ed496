import Telemetry.Binary64.Basic
import Telemetry.Binary64.Shortest
import Telemetry.Cache
import Telemetry.Cadence
import Telemetry.Change
import Telemetry.CommandLine
import Telemetry.Datastore.Basic
import Telemetry.Datastore.Exchange
import Telemetry.Datastore.StandIn
import Telemetry.Engine.Lifecycle
import Telemetry.Engine.Server
import Telemetry.Engine.State
import Telemetry.Engine.Transaction
import Telemetry.Engine.Work
import Telemetry.Error
import Telemetry.Event
import Telemetry.Json.Basic
import Telemetry.Json.Numeral
import Telemetry.Json.Printer
import Telemetry.Json.Reader
import Telemetry.Json.Record
import Telemetry.Leaves
import Telemetry.Main
import Telemetry.Mode
import Telemetry.Path.Basic
import Telemetry.Path.Parser
import Telemetry.Proofs.Acceptance
import Telemetry.Proofs.Answers
import Telemetry.Proofs.Atomicity
import Telemetry.Proofs.Buckets
import Telemetry.Proofs.Calls
import Telemetry.Proofs.Comeback
import Telemetry.Proofs.Commitment
import Telemetry.Proofs.Confinement
import Telemetry.Proofs.Conformity
import Telemetry.Proofs.Convergence
import Telemetry.Proofs.Course
import Telemetry.Proofs.Crew
import Telemetry.Proofs.Deeds
import Telemetry.Proofs.Flattening
import Telemetry.Proofs.Following
import Telemetry.Proofs.Fronts
import Telemetry.Proofs.Heartbeat
import Telemetry.Proofs.History
import Telemetry.Proofs.Independence
import Telemetry.Proofs.Least
import Telemetry.Proofs.Lifecycle
import Telemetry.Proofs.Mirror
import Telemetry.Proofs.Moments
import Telemetry.Proofs.Operations
import Telemetry.Proofs.Outside
import Telemetry.Proofs.Pace
import Telemetry.Proofs.Pact
import Telemetry.Proofs.Planning
import Telemetry.Proofs.Polling
import Telemetry.Proofs.Reading
import Telemetry.Proofs.Registrants
import Telemetry.Proofs.Rejection
import Telemetry.Proofs.Reports
import Telemetry.Proofs.Resubmission
import Telemetry.Proofs.Reversal
import Telemetry.Proofs.Rhythm
import Telemetry.Proofs.Rounds
import Telemetry.Proofs.Routes
import Telemetry.Proofs.Selection
import Telemetry.Proofs.Service
import Telemetry.Proofs.Settlement
import Telemetry.Proofs.Shutdown
import Telemetry.Proofs.Soundness
import Telemetry.Proofs.Spelling
import Telemetry.Proofs.Starting
import Telemetry.Proofs.Stirring
import Telemetry.Proofs.Stopping
import Telemetry.Proofs.Stores
import Telemetry.Proofs.Suppression
import Telemetry.Proofs.System
import Telemetry.Proofs.Tally
import Telemetry.Proofs.TopLevel
import Telemetry.Proofs.Traffic
import Telemetry.Proofs.Transactions
import Telemetry.Proofs.Turns
import Telemetry.Proofs.Undoing
import Telemetry.Proofs.Visits
import Telemetry.Proofs.Walking
import Telemetry.Proofs.Written
import Telemetry.Registry
import Telemetry.Request.Basic
import Telemetry.Request.Parse
import Telemetry.Request.Payload
import Telemetry.Request.Validation
import Telemetry.Request.View
import Telemetry.Routing
import Telemetry.Sampling
import Telemetry.Schema.Basic
import Telemetry.Schema.Json
import Telemetry.Settings
import Telemetry.Settings.Toml
import Telemetry.Snapshot
import Telemetry.SortedMap
import Telemetry.Text.Blank
import Telemetry.Text.Duration
import Telemetry.Text.Natural
import Telemetry.Text.Quoted
import Telemetry.Text.Unprintable
import Telemetry.Timeline.Basic
import Telemetry.Timeline.Run
import Telemetry.Timeline.Script
import Telemetry.Timeline.Turn
import Telemetry.Toml.Document
import Telemetry.Toml.Scalar
