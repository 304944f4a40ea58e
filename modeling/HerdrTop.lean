import HerdrTop.Library.HashMap
import HerdrTop.Library.Checked
import HerdrTop.Library.Closure
import HerdrTop.Library.Digraph
import HerdrTop.Library.Outline
import HerdrTop.Library.PriorityOrder
import HerdrTop.Library.NameIndex
import HerdrTop.Library.Metering
import HerdrTop.Library.Numbering
import HerdrTop.Library.Runs
import HerdrTop.Library.Lines
import HerdrTop.Library.Scanner
import HerdrTop.Library.Shortlist
import HerdrTop.Library.Forest
import HerdrTop.Library.References
import HerdrTop.Library.Components
import HerdrTop.Library.Champions
import HerdrTop.Library.KeyedFifo
import HerdrTop.Model.Ids
import HerdrTop.Model.State
import HerdrTop.Model.Entities
import HerdrTop.Model.Events
import HerdrTop.Model.Graph
import HerdrTop.Model.Announcements
import HerdrTop.Model.Publication
import HerdrTop.Model.Changes
import HerdrTop.Status
import HerdrTop.Status.ReadModel
import HerdrTop.Store.PersistOp
import HerdrTop.Store.Codec
import HerdrTop.Store.Database
import HerdrTop.Identity.Binding
import HerdrTop.Store.Operations
import HerdrTop.Store.Drains
import HerdrTop.Store.Batch
import HerdrTop.Store.Effects
import HerdrTop.Store.Lineage
import HerdrTop.Store.Finalization
import HerdrTop.Store.Retention
import HerdrTop.Store.Restore
import HerdrTop.Store.Restorable
import HerdrTop.Store.Restart
import HerdrTop.Store.Recognition
import HerdrTop.Store.Replay
import HerdrTop.Store.Writer
import HerdrTop.Store.Acknowledgements
import HerdrTop.Identity.Index
import HerdrTop.Identity.Apply
import HerdrTop.Identity.Merge
import HerdrTop.Identity.Agreement
import HerdrTop.Identity.Graphs
import HerdrTop.Reducer.Transitions
import HerdrTop.Reducer.ControllerText
import HerdrTop.Reducer.Lineage
import HerdrTop.Reducer.State
import HerdrTop.Reducer.Lifecycle
import HerdrTop.Reducer.Events
import HerdrTop.Reducer.Rates
import HerdrTop.Reducer.Observe
import HerdrTop.Reducer.Controller
import HerdrTop.Reducer.Reconcile
import HerdrTop.Reducer.Sweeps
import HerdrTop.Reducer.Provider
import HerdrTop.Reducer.Rollback
import HerdrTop.Reducer.Settling
import HerdrTop.Reducer.Mutation
import HerdrTop.Reducer.Effects
import HerdrTop.Reducer.Staging
import HerdrTop.Reducer.Reachable
import HerdrTop.Reducer.Ordinals
import HerdrTop.Reducer.Safety
import HerdrTop.Reducer.IdentitySafety
import HerdrTop.Reducer.ParentForest
import HerdrTop.Reducer.Placement
import HerdrTop.Reducer.TopologySnapshots
import HerdrTop.Reducer.TopologySafety
import HerdrTop.Reducer.Publishing
import HerdrTop.Reducer.BeforeImages
import HerdrTop.Reducer.RunTimes
import HerdrTop.Reducer.Atomicity
import HerdrTop.Reducer.Attendance
import HerdrTop.Reducer.Relationships
import HerdrTop.Reducer.RateLedger
import HerdrTop.Status.Working
import HerdrTop.Reducer.TelemetryQueue
import HerdrTop.Herdr.Controller
import HerdrTop.Operator.Projection
import HerdrTop.Operator.Isolation
import HerdrTop.Provider.CommandScript
import HerdrTop.Provider.Facts
import HerdrTop.Provider.Admission
import HerdrTop.Provider.AdmissionSafety
import HerdrTop.Library.Calendar
import HerdrTop.Provider.Timestamps
import HerdrTop.Library.Utf8
import HerdrTop.Provider.RawIds
import HerdrTop.Provider.Tail
import HerdrTop.Provider.TailLines
import HerdrTop.Provider.Pending
import HerdrTop.Provider.PendingDelivery
import HerdrTop.Library.Monitor
import HerdrTop.Provider.ScopeLifecycle
import HerdrTop.Provider.Synthesis
import HerdrTop.Provider.SynthesisTerminals
import HerdrTop.Herdr.ProviderWorker
import HerdrTop.Herdr.ProviderBackpressure
import HerdrTop.Herdr.CodexBindings
import HerdrTop.Store.SingleClient
import HerdrTop.Herdr.RuntimePersistence
import HerdrTop.Herdr.PersistenceRuns
import HerdrTop.Herdr.PersistenceSafety
import HerdrTop.Tui.Dag
import HerdrTop.Tui.DagLoops
import HerdrTop.Tui.DagStable
import HerdrTop.Tui.Rows
import HerdrTop.Tui.Projection
import HerdrTop.Tui.ExecutionTree
import HerdrTop.Tui.TreePlacement
import HerdrTop.Tui.TreeRows
import HerdrTop.Store.LedgerInterleavings
import HerdrTop.Store.RetentionSafety
import HerdrTop.Status.Visibility
import HerdrTop.Status.InView
import HerdrTop.Tui.Expiry
import HerdrTop.Tui.Screen
import HerdrTop.Tui.Shapes
import HerdrTop.Tui.Selection
import HerdrTop.Tui.App
import HerdrTop.Tui.AppRows
import HerdrTop.Tui.AppSelection
import HerdrTop.Tui.Following
import HerdrTop.Library.Alarm
import HerdrTop.Performance.Tracker
import HerdrTop.Performance.Samples
import HerdrTop.Provider.LiveOrigin
import HerdrTop.Provider.ShellCommands
import HerdrTop.Provider.ShellReading
import HerdrTop.Provider.ShellEvidence
import HerdrTop.Provider.SubagentEnds
import HerdrTop.Provider.TailGenerations
