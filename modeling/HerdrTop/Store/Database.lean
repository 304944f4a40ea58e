import HerdrTop.Library.HashMap
import HerdrTop.Store.Codec

/-!
# The tables of the store

A database is its tables. A table is a map from its primary key to the rest of the row; the events,
whose row numbers only grow, are a list in the order of these numbers. A column of a closed kind
holds the value whose text `Codec` writes; several columns that are `NULL` together hold one optional
value.

The uniqueness and the references that the schema asks for are checked where a statement could
violate them; such a statement fails with `StoreError.sqlite`.

Left out are the tables of the schema's versions and of the owner, the terminal sessions' names,
which no restored value depends on, and the names of the tables.
-/

namespace HerdrTop

/-- The kinds of rows that have a display ordinal. -/
inductive EntityKind
  | topology (kind : TopologyKind)
  | taskRun
  | agentNode
  deriving DecidableEq

/-- What errors call the kind. -/
def EntityKind.text : EntityKind → String
  | .topology .workspace => "workspace"
  | .topology .tab => "tab"
  | .topology .pane => "pane"
  | .taskRun => "task run"
  | .agentNode => "agent node"

/-- A row of `task_runs`. -/
structure TaskRunRow where
  key : RunKey
  displayOrdinal : DisplayOrdinal
  taskState : TaskState
  hasControllerTaskStateEvent : Bool
  /-- The native session that is bound to the run. -/
  native : Option NativeSessionBinding := none
  /-- The run that stands for this one; a run without it is canonical. -/
  mergedInto : Option RunId := none
  createdAtMs : ℤ
  updatedAtMs : ℤ
  finishedAtMs : Option ℤ
  subject : Option String := none
  dismissedAtMs : Option ℤ := none
  /-- The end, the watermark, the readiness and the latest provider time of schema version 6. -/
  state : TaskRunV6State := {}
  deriving DecidableEq

/-- A row of `executions`. -/
structure ExecutionRow where
  paneId : String
  terminalId : String
  taskRunId : RunId
  execState : ExecState
  startedAtMs : ℤ
  updatedAtMs : ℤ
  endedAtMs : Option ℤ
  deriving DecidableEq

/-- A row of `agent_nodes`. -/
structure AgentNodeRow where
  provider : Provider
  nativeSessionId : Option String
  taskRunId : RunId
  parentAgentNodeId : Option String
  /-- The text of the state. -/
  state : Option String
  modelId : Option String
  lastEventKind : Option String
  lastToolName : Option String
  lastItemCount : Option ℤ
  lastByteCount : Option ℤ
  lastActivityAtMs : Option ℤ
  sessionFile : Option String
  deriving DecidableEq

/-- A row of `events`. -/
structure EventRow where
  eventId : String
  seenAtMs : ℤ
  eventTimestampMs : ℤ
  herdrSession : String
  source : String
  normalizedKind : String
  sourceEventType : String
  workspaceId : Option String := none
  tabId : Option String := none
  paneId : Option String := none
  terminalId : Option String := none
  provider : Option Provider := none
  nativeSessionId : Option String := none
  taskRunId : Option RunId := none
  agentNodeId : Option String := none
  taskState : Option TaskState := none
  modelId : Option String := none
  providerEventKind : Option String := none
  toolName : Option String := none
  itemCount : Option ℤ := none
  byteCount : Option ℤ := none
  gapKind : Option GapKind := none
  ingestSeq : Option ℤ := none
  providerAgentId : Option String := none
  providerParentAgentId : Option String := none
  sourceCoverage : Option (List SourceCoverage) := none
  historyDrainId : Option HistoryDrainId := none
  deriving DecidableEq

/-- A row of `history_drains`. -/
structure HistoryDrainRow where
  provider : Provider
  createdAtMs : ℤ
  finalizedAtMs : Option ℤ := none
  completedByDrainId : Option HistoryDrainId := none
  deriving DecidableEq

/-- A row of `history_drain_artifacts`. -/
structure ArtifactRow where
  generation : String
  goalpost : ℤ
  deriving DecidableEq

/-- A row of `history_run_publications`; the payload is the before-image that the text decodes to. -/
structure PublicationRow where
  canonicalRunId : RunId
  payload : HistoryRunPublication
  deriving DecidableEq

/-- The tables. -/
structure Database where
  workspaces : HashSet String := (∅ : HashMap String Unit)
  /-- The workspace and the label. -/
  tabs : HashMap String (String × Option String) := ∅
  panes : HashMap String Pane := ∅
  displayOrdinals : HashMap (EntityKind × String) DisplayOrdinal := ∅
  nativeAgentSessions : HashSet (Provider × String) := (∅ : HashMap (Provider × String) Unit)
  taskRuns : HashMap RunId TaskRunRow := ∅
  runRateTotals : HashMap RunId RunRateTotals := ∅
  executions : HashMap String ExecutionRow := ∅
  agentNodes : HashMap String AgentNodeRow := ∅
  /-- The edges with the time each was first seen. -/
  executionEdges : HashMap ExecutionEdge ℤ := ∅
  dependencyEdges : HashMap DependencyEdge ℤ := ∅
  /-- In the order of `event_row_id`. -/
  events : List EventRow := []
  eventLedger : HashMap String ℤ := ∅
  ingestSeqHighWater : ℤ := 0
  historyDrains : HashMap HistoryDrainId HistoryDrainRow := ∅
  historyDrainArtifacts : HashMap (HistoryDrainId × String) ArtifactRow := ∅
  historyDrainRuns : HashSet (HistoryDrainId × RunId) := (∅ : HashMap (HistoryDrainId × RunId) Unit)
  historyRunPublications : HashMap RunId PublicationRow := ∅
  historyEventBeforeImages : HashMap (HistoryDrainId × String) (Option RunId) := ∅
  deriving DecidableEq

/-- What a statement or a transaction leaves, unless it fails. -/
abbrev StoreResult := Except StoreError

/-- A condition of the schema. -/
def constraint (holds : Bool) : StoreResult Unit := if holds then .ok () else .error .sqlite

@[simp] theorem constraint_ok {holds : Bool} {u : Unit} : constraint holds = .ok u ↔ holds = true := by
  cases holds <;> simp [constraint]

namespace Database

/-- The row of a run, if the run is canonical. -/
def canonical (db : Database) (runId : RunId) : Option TaskRunRow :=
  (db.taskRuns.get runId).filter (·.mergedInto.isNone)

/-- Whether a drain is known and not finalized. -/
def openDrain (db : Database) (drainId : HistoryDrainId) : Bool :=
  (db.historyDrains.get drainId).any (·.finalizedAtMs.isNone)

/-- Whether a drain is known and finalized. -/
def finalizedDrain (db : Database) (drainId : HistoryDrainId) : Bool :=
  (db.historyDrains.get drainId).any (·.finalizedAtMs.isSome)

/-- Whether a drain contributed to a run. -/
def associated (db : Database) (drainId : HistoryDrainId) (runId : RunId) : Bool :=
  HashMap.contains db.historyDrainRuns (drainId, runId)

/-- Whether a run waits for a drain that is not finalized. -/
def blocked (db : Database) (runId : RunId) : Bool :=
  (HashMap.keys db.historyDrainRuns).any fun association =>
    association.2 = runId && db.openDrain association.1

/-- Whether a run has an execution that has not ended. -/
def live (db : Database) (runId : RunId) : Bool :=
  db.executions.values.any fun execution => execution.taskRunId = runId && execution.endedAtMs.isNone

end Database

end HerdrTop
