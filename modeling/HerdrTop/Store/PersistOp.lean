import HerdrTop.Model.Events

/-!
# Persistence operations

The typed operations of a reducer batch. A batch is committed in one transaction of the
store; the reducer only produces it.
-/

namespace HerdrTop

/-- A native session bound to a run. -/
structure NativeSessionBinding where
  provider : Provider
  nativeSessionId : String
  deriving DecidableEq

/-- A run with the times and the binding that storage needs. -/
structure PersistTaskRun where
  taskRun : TaskRun
  nativeSession : Option NativeSessionBinding
  createdAtMs : ℤ
  updatedAtMs : ℤ
  finishedAtMs : Option ℤ
  deriving DecidableEq

/-- An execution with its times. -/
structure PersistExecution where
  execution : Execution
  startedAtMs : ℤ
  updatedAtMs : ℤ
  endedAtMs : Option ℤ
  deriving DecidableEq

/-- An interval in which nothing was observed. -/
structure CollectorGap where
  eventId : String
  herdrSession : String
  seenAtMs : ℤ
  kind : GapKind
  deriving DecidableEq

/-- One operation of a batch. -/
inductive PersistOp
  | upsertWorkspace (workspace : Workspace) (displayOrdinal : DisplayOrdinal)
  | upsertTab (tab : Tab) (displayOrdinal : DisplayOrdinal)
  | upsertPane (pane : Pane) (displayOrdinal : DisplayOrdinal)
  | deleteWorkspace (workspaceId : String)
  | deleteTab (tabId : String)
  | clearTabLabel (tabId : String)
  | clearPaneDisplayName (paneId : String)
  | deletePane (paneId : String)
  | upsertTaskRun (run : PersistTaskRun)
  | promoteTaskRunKey (promoted : PersistTaskRun) (oldKey : RunKey) (aliasRunId : RunId)
  | mergeTaskRuns (survivor absorbed : RunId)
  | upsertExecution (execution : PersistExecution)
  | upsertAgentNode (agentNode : AgentNode)
  | upsertExecutionEdge (edge : ExecutionEdge) (createdAtMs : ℤ)
  | upsertDependencyEdge (edge : DependencyEdge) (createdAtMs : ℤ)
  | recordEvent (event : NormalizedEvent) (seenAtMs : ℤ)
  | recordCollectorGap (gap : CollectorGap)
  | advanceIngestSequence (ingestSeq : ℤ)
  deriving DecidableEq

/-- The operations of one transaction, in their order. -/
abbrev PersistBatch := List PersistOp

/-- A run with its lifecycle and history state. -/
structure PersistTaskRunV6 where
  taskRun : PersistTaskRun
  state : TaskRunV6State
  deriving DecidableEq

/-- One artifact of a frozen history manifest. -/
structure PersistHistoryDrainArtifact where
  artifactId : String
  generation : String
  goalpost : ℕ
  deriving DecidableEq

/-- A history drain with its frozen manifest. -/
structure PersistHistoryDrain where
  drainId : HistoryDrainId
  provider : Provider
  createdAtMs : ℤ
  artifacts : List PersistHistoryDrainArtifact
  deriving DecidableEq

/-- A run that a drain contributed to. -/
structure PersistHistoryDrainRun where
  drainId : HistoryDrainId
  runId : RunId
  deriving DecidableEq

/-- A batch with the rows that accompany its operations. -/
structure PersistV6Batch where
  operations : PersistBatch := []
  taskRuns : List PersistTaskRunV6 := []
  rateTotals : List (RunId × RunRateTotals) := []
  historyDrains : List PersistHistoryDrain := []
  historyAssociations : List PersistHistoryDrainRun := []
  historyPublications : List HistoryRunPublication := []
  historyEventDrain : Option HistoryDrainId := none
  deriving DecidableEq

/-- A run whose history is now complete in the store. -/
structure FinalizedHistoryRun where
  runId : RunId
  state : TaskRunV6State
  deriving DecidableEq

/-- The durable result of finalizing a drain. -/
structure HistoryDrainFinalization where
  drainId : HistoryDrainId
  finalizedAtMs : ℤ
  completedDrains : List HistoryDrainId
  runs : List FinalizedHistoryRun
  deriving DecidableEq

end HerdrTop
