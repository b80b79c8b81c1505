import StageGate.Backlog
import StageGate.Backoff
import StageGate.ChartSelection
import StageGate.CommandLine.Arguments
import StageGate.CommandLine.LogFilter
import StageGate.CommandLine.Program
import StageGate.CommandLine.Report
import StageGate.Counters
import StageGate.Duration
import StageGate.Event
import StageGate.FileText
import StageGate.FileTree
import StageGate.Gate
import StageGate.Gates
import StageGate.Json.Basic
import StageGate.Json.Reader
import StageGate.Json.Record
import StageGate.Json.Writer
import StageGate.Key
import StageGate.Main
import StageGate.ObjectName
import StageGate.Pattern.Basic
import StageGate.Pattern.CharClass
import StageGate.Pattern.Escape
import StageGate.Pattern.Group
import StageGate.Pattern.Mode
import StageGate.Pattern.Nesting
import StageGate.Promoter.Dispatch
import StageGate.Promoter.Disturbance
import StageGate.Promoter.Mechanics
import StageGate.Promoter.Reconcile
import StageGate.Promoter.Recovery
import StageGate.Promoter.Run
import StageGate.Promoter.Watch
import StageGate.Promoter.World
import StageGate.Proofs.Gates.Calls
import StageGate.Proofs.Gates.Effects
import StageGate.Proofs.Gates.Exclusion
import StageGate.Proofs.Store.Writes
import StageGate.Proofs.WorkQueue.Sound
import StageGate.Resource.Application
import StageGate.Resource.Fixtures
import StageGate.Resource.Mechanism
import StageGate.Resource.Metadata
import StageGate.Resource.Promotion
import StageGate.Resource.Stage
import StageGate.Resource.StageState
import StageGate.Resource.Subscription
import StageGate.Settings
import StageGate.SortedMap
import StageGate.Store.Basic
import StageGate.Store.Error
import StageGate.Store.Feed
import StageGate.Store.FieldIndex
import StageGate.Store.Write
import StageGate.Text.Alphanumeric
import StageGate.Text.Blank
import StageGate.Text.Bounds
import StageGate.Text.Bytes
import StageGate.Text.Combining
import StageGate.Text.Digits
import StageGate.Text.Numeral
import StageGate.Text.Quoted
import StageGate.Text.Unprintable
import StageGate.Timestamp.Basic
import StageGate.Timestamp.Calendar
import StageGate.Timestamp.Text
import StageGate.WorkQueue
import StageGate.Proofs.Store.Chronicle
import StageGate.Proofs.Promoter.Actions
import StageGate.Proofs.Promoter.Attempt
import StageGate.Proofs.Promoter.System
import StageGate.Proofs.Promoter.Frame
import StageGate.Proofs.Promoter.Exclusive
import StageGate.Proofs.Promoter.Attended
import StageGate.Proofs.Promoter.Watchful
import StageGate.Proofs.Promoter.Unstalled
import StageGate.Proofs.Store.Seed
import StageGate.Proofs.Promoter.Settled
import StageGate.Proofs.Gates.Distinct
import StageGate.Proofs.Gates.Selection
import StageGate.Proofs.Gates.Census
import StageGate.Proofs.Gates.Tables
import StageGate.Proofs.Gates.Ordered
import StageGate.Proofs.Promoter.LateClaim
import StageGate.Proofs.Promoter.Provenance
import StageGate.Proofs.WorkQueue.InUse
import StageGate.Proofs.Promoter.Known
import StageGate.Proofs.Promoter.Written
import StageGate.Proofs.Promoter.LateEvent
import StageGate.Proofs.Promoter.Sharded
import StageGate.Proofs.Promoter.Outages
import StageGate.Proofs.Promoter.Troubled
import StageGate.Proofs.Moments
import StageGate.Proofs.WorkQueue.Delays
import StageGate.Proofs.WorkQueue.Requests
import StageGate.Proofs.Store.History
import StageGate.Proofs.Store.Versions
import StageGate.Proofs.Store.FieldIndex
import StageGate.Proofs.Store.RunningAgainst
import StageGate.Proofs.Store.Replay
import StageGate.Proofs.Promoter.Recovered
import StageGate.Proofs.Promoter.Holders
import StageGate.Proofs.Promoter.BrokenResync
import StageGate.Proofs.Promoter.StatusWrites
import StageGate.Proofs.Promoter.Finality
import StageGate.Proofs.Gates.Apart
import StageGate.Proofs.Store.Created
import StageGate.Proofs.Promoter.Interference
import StageGate.Proofs.Promoter.Oldest
import StageGate.Proofs.Promoter.StatusLoop
import StageGate.Proofs.Promoter.TakenUp
import StageGate.Proofs.Promoter.Promoted
import StageGate.Proofs.Promoter.Landing
import StageGate.Proofs.Gates.Precedence
import StageGate.Proofs.Promoter.Startup
import StageGate.Proofs.Promoter.LifeCycle
import StageGate.Proofs.Json.RoundTrip
import StageGate.Proofs.Json.Records
import StageGate.Proofs.Timestamp.RoundTrip
import StageGate.Proofs.Resource.RoundTrip
import StageGate.Proofs.Gates.Questions
import StageGate.Proofs.Promoter.HeardAgain
import StageGate.Proofs.StableSort
import StageGate.Proofs.Stock
import StageGate.Proofs.WorkQueue.Ripening
import StageGate.Proofs.Backoff
import StageGate.Proofs.WorkQueue.Draining
import StageGate.Proofs.WorkQueue.GivingBack
import StageGate.Proofs.Store.LatestValues
import StageGate.Proofs.ObjectName
import StageGate.Proofs.ChartSelection
import StageGate.Proofs.Store.Renewed
import StageGate.Proofs.Promoter.Inert
import StageGate.Proofs.Promoter.Activations
