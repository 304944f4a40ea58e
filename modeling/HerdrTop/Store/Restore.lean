import HerdrTop.Model.Publication
import HerdrTop.Store.Retention
import Mathlib.Order.WithBot

/-!
# Restoring the model

What a restart reads from the tables: the model with its counters, the activity whose drain is not
finalized, and what the operator sees. Reading fails on a row that makes no sense.
-/

namespace HerdrTop

/-- What an activity item shows about how durable it is. -/
inductive ActivityDurability
  | durable
  | currentOnly
  | durabilityUnknown
  deriving DecidableEq

/-- An event as the operator sees it. -/
structure ActivityItem where
  eventId : String
  eventTimestampMs : ℤ
  seenAtMs : ℤ
  ingestSeq : Option ℕ
  source : String
  normalizedKind : String
  sourceEventType : String
  workspaceId : Option String
  tabId : Option String
  paneId : Option String
  terminalId : Option String
  provider : Option Provider
  nativeSessionId : Option String
  taskRunId : Option RunId
  agentNodeId : Option String
  taskState : Option TaskState
  modelId : Option String
  providerEventKind : Option String
  toolName : Option String
  itemCount : Option ℕ
  byteCount : Option ℕ
  providerAgentId : Option String
  providerParentAgentId : Option String
  controllerLabel : Option String := none
  controllerReason : Option String := none
  durability : ActivityDurability := .durable
  deriving DecidableEq

/-- What a restart begins with. -/
structure RestoredState where
  model : DomainModel
  /-- The activity that waits for drains. -/
  deferredHistoryActivity : HashMap HistoryDrainId (List ActivityItem)
  nextOrdinal : ℤ
  /-- The next ingest sequence, unless the last one was used. -/
  nextIngestSeq : Option ℤ
  /-- By name. -/
  eventLedger : List (String × ℤ)

/-- What the operator's view begins with. -/
structure RestoredOperatorState where
  activity : List ActivityItem
  terminalTimes : HashMap RunId ℤ

/-- How many activity items are restored. -/
def operatorActivityLimit : ℕ := 10000

/-- The first display ordinal. -/
def displayOrdinalBase : ℤ := 1

/-- A number that SQLite holds, and that is not negative. -/
def optionalUnsignedInteger (field : String) : Option ℤ → StoreResult (Option ℕ)
  | none => .ok none
  | some value =>
    if 0 ≤ value then .ok (some value.toNat)
    else .error (.invalid field (toString value) "value cannot be negative")

/-- An ordinal that a place must have. -/
def requiredTopologyOrdinal (ordinal : Option DisplayOrdinal) (kind : TopologyKind) (entityId : String) :
    StoreResult DisplayOrdinal :=
  match ordinal with
  | some ordinal => .ok ordinal
  | none => .error (.invalid "display_ordinal" s!"{(EntityKind.topology kind).text}:{entityId}"
      "topology entity is missing its persisted display ordinal")

namespace Database

/-! ### Topology -/

/-- The ordinal of a place. -/
def topologyOrdinal (db : Database) (kind : TopologyKind) (entityId : String) : StoreResult DisplayOrdinal :=
  requiredTopologyOrdinal (db.displayOrdinals.get (.topology kind, entityId)) kind entityId

def restoreWorkspace (db : Database) (model : DomainModel) (workspaceId : String) :
    StoreResult DomainModel := do
  let ordinal ← db.topologyOrdinal .workspace workspaceId
  return (model.insertWorkspace { workspaceId }).setTopologyOrdinal .workspace workspaceId ordinal

def restoreTab (db : Database) (model : DomainModel) (row : String × String × Option String) :
    StoreResult DomainModel := do
  let ordinal ← db.topologyOrdinal .tab row.1
  let tab : Tab := { tabId := row.1, workspaceId := row.2.1, label := row.2.2 }
  return (model.insertTab tab).setTopologyOrdinal .tab row.1 ordinal

def restorePane (db : Database) (model : DomainModel) (row : String × Pane) : StoreResult DomainModel := do
  let ordinal ← db.topologyOrdinal .pane row.1
  return (model.insertPane { row.2 with paneId := row.1 }).setTopologyOrdinal .pane row.1 ordinal

def restoreTopology (db : Database) (model : DomainModel) : StoreResult DomainModel := do
  let model ← (HashMap.keys db.workspaces).foldlM db.restoreWorkspace model
  let model ← db.tabs.toList.foldlM db.restoreTab model
  db.panes.toList.foldlM db.restorePane model

/-! ### Runs -/

/-- A run as it is read. -/
structure StoredTaskRun where
  taskRun : TaskRun
  v6State : TaskRunV6State
  mergedInto : Option RunId
  nativeBinding : Option NativeSessionBinding

/-- Reads a run. -/
def storedTaskRun (runId : RunId) (row : TaskRunRow) : StoreResult StoredTaskRun := do
  let key ← decodeRunKey row.key.encode
  let nativeSessionEnd ← row.state.nativeSessionEnd.mapM fun sessionEnd => do
    let status ← parseNativeSessionEndStatus (nativeSessionEndStatusText sessionEnd.status)
    return ({ sessionEnd with status } : NativeSessionEnd)
  let state ← parseTaskState (taskStateText row.taskState)
  let nativeBinding ← row.native.mapM fun native => do
    return ({ native with provider := ← parseProvider (providerText native.provider) } :
      NativeSessionBinding)
  return {
    taskRun := {
      runId
      key
      displayOrdinal := row.displayOrdinal
      state
      hasControllerTaskStateEvent := row.hasControllerTaskStateEvent
      createdAtMs := some row.createdAtMs
      updatedAtMs := some row.updatedAtMs
      finishedAtMs := row.finishedAtMs
      subject := row.subject
      dismissedAtMs := row.dismissedAtMs }
    v6State := { row.state with nativeSessionEnd }
    mergedInto := row.mergedInto
    nativeBinding }

/-- Installs a canonical run, its state and its session; a made-up key is not addressable. -/
def installCanonical (model : DomainModel) (stored : StoredTaskRun) : DomainModel :=
  let runId := stored.taskRun.runId
  let model := if stored.taskRun.key.isProvisional then model.insertHistoricalTaskRun stored.taskRun
    else model.insertTaskRun stored.taskRun
  let model := model.setV6State runId stored.v6State
  stored.nativeBinding.elim model fun native =>
    model.insertTaskRunAlias (.native native.provider native.nativeSessionId) runId

/-- Where an alias leads; `none` on a cycle. -/
def aliasRoot (aliases : HashMap RunId RunId) (current : RunId) : List RunId → ℕ → Option RunId
  | visited, fuel =>
    match aliases.get current, fuel with
    | none, _ => some current
    | some target, fuel + 1 =>
      if current ∈ visited then none else aliasRoot aliases target (current :: visited) fuel
    | some _, 0 => none

/-- Where an alias leads. A repetition shows before the fuel ends. -/
def resolveAliasRoot (aliased : RunId) (aliases : HashMap RunId RunId) : StoreResult RunId :=
  match aliasRoot aliases aliased [] (aliases.keys.length + 1) with
  | some root => .ok root
  | none => .error (.invalid "merged_into" aliased.text
      "alias cycle detected while restoring task runs")

/-- Installs the key of an alias. -/
def installAlias (aliases : HashMap RunId RunId) (model : DomainModel) (stored : StoredTaskRun) :
    StoreResult DomainModel := do
  let canonical ← resolveAliasRoot stored.taskRun.runId aliases
  if (model.taskRun canonical).isNone then
    .error (.invalid "merged_into" canonical.text
      s!"alias task run {stored.taskRun.runId.text} does not resolve to a live canonical root")
  else if stored.taskRun.key.isProvisional then return model
  else return model.insertTaskRunAlias stored.taskRun.key canonical

/-- The aliases and what each stands beside. -/
def aliasTargets (storedRuns : List StoredTaskRun) : HashMap RunId RunId :=
  HashMap.ofList (storedRuns.filterMap fun stored =>
    stored.mergedInto.map fun target => (stored.taskRun.runId, target))

def restoreTaskRuns (db : Database) (model : DomainModel) : StoreResult DomainModel := do
  let storedRuns ← db.taskRuns.toList.mapM fun row => storedTaskRun row.1 row.2
  let model := (storedRuns.filter (·.mergedInto.isNone)).foldl installCanonical model
  (storedRuns.filter (·.mergedInto.isSome)).foldlM (installAlias (aliasTargets storedRuns)) model

/-! ### What belongs to runs -/

def restoreRateTotals (model : DomainModel) (row : RunId × RunRateTotals) : StoreResult DomainModel :=
  if (model.taskRun row.1).isNone then
    .error (.invalid "run_rate_totals.run_id" row.1.text
      "rate totals do not name a live canonical task run")
  else if row.2.workingMs < 0 then
    .error (.invalid "run_rate_totals.working_ms" (toString row.2.workingMs)
      "measured working milliseconds cannot be negative")
  else .ok (model.setRunRateTotals row.1 row.2)

def restoreExecution (model : DomainModel) (row : String × ExecutionRow) : StoreResult DomainModel := do
  let (text, staleSinceMs) := encodeExecState row.2.execState
  let state ← parseExecState text staleSinceMs
  return model.insertExecution {
    executionId := row.1
    paneId := row.2.paneId
    terminalId := row.2.terminalId
    taskRunId := row.2.taskRunId
    state }

/-- An agent without an ordinal is not read. -/
def restoreAgentNode (db : Database) (model : DomainModel) (row : String × AgentNodeRow) :
    StoreResult DomainModel :=
  match db.displayOrdinals.get (.agentNode, row.1) with
  | none => .ok model
  | some displayOrdinal => do return model.insertAgentNode (← row.2.agentNode row.1 displayOrdinal)

/-- Reads the before-images by published run; the column says which run each stands for. -/
def loadHistoryRunPublications (db : Database) : StoreResult (List HistoryRunPublication) :=
  (db.historyRunPublications.toList.insertionSort fun left right => left.1 ≤ right.1).mapM fun row =>
    if row.2.payload.taskRun.runId ≠ row.1 then
      .error (.invalid "history_run_publications.published_run_id" row.1.text
        "stored publication identity disagrees with its payload")
    else .ok { row.2.payload with canonicalRunId := row.2.canonicalRunId }

/-! ### Activity -/

/-- What orders activity. -/
def activityKey (event : EventRow) : ℤ ×ₗ ℤ ×ₗ WithBot ℤ ×ₗ String :=
  toLex (event.eventTimestampMs, toLex (event.seenAtMs, toLex (event.ingestSeq, event.eventId)))

/-- The latest events that satisfy a condition, latest first. -/
def latestActivity (db : Database) (selected : EventRow → Bool) : List EventRow :=
  ((db.events.filter selected).insertionSort fun left right =>
    activityKey right ≤ activityKey left).take operatorActivityLimit

/-- An event as the operator sees it, with the run that it is shown under. -/
def activityItem (event : EventRow) (taskRunId : Option RunId) : StoreResult ActivityItem := do
  let ingestSeq ← optionalUnsignedInteger "events.ingest_seq" event.ingestSeq
  let itemCount ← optionalUnsignedCount "events.item_count" event.itemCount
  let byteCount ← optionalUnsignedCount "events.byte_count" event.byteCount
  return {
    eventId := event.eventId
    eventTimestampMs := event.eventTimestampMs
    seenAtMs := event.seenAtMs
    ingestSeq
    source := event.source
    normalizedKind := event.normalizedKind
    sourceEventType := event.sourceEventType
    workspaceId := event.workspaceId
    tabId := event.tabId
    paneId := event.paneId
    terminalId := event.terminalId
    provider := event.provider
    nativeSessionId := event.nativeSessionId
    taskRunId
    agentNodeId := event.agentNodeId
    taskState := event.taskState
    modelId := event.modelId
    providerEventKind := event.providerEventKind
    toolName := event.toolName
    itemCount
    byteCount
    providerAgentId := event.providerAgentId
    providerParentAgentId := event.providerParentAgentId }

/-- The row of the run of an event. -/
def eventRun (db : Database) (event : EventRow) : Option TaskRunRow := event.taskRunId.bind db.taskRuns.get

/-- Whether the run of an event is known and not shown. -/
def eventHidden (db : Database) (event : EventRow) : Bool :=
  (db.eventRun event).any fun row => !row.state.historyReady

/-- What orders drains. -/
def drainKey (drainId : HistoryDrainId) (row : HistoryDrainRow) : ℤ ×ₗ String :=
  toLex (row.createdAtMs, drainId.value)

/-- The drains that are stored and satisfy a condition, oldest first. -/
def drainsWhere (db : Database) (selected : HistoryDrainId → HistoryDrainRow → Bool) :
    List HistoryDrainId :=
  ((db.historyDrains.toList.filter fun drain => selected drain.1 drain.2).insertionSort
    fun left right => drainKey left.1 left.2 ≤ drainKey right.1 right.2).map Prod.fst

/-- The drains that keep a before-image of an event and satisfy a condition, oldest first. -/
def imageDrains (db : Database) (event : EventRow) (selected : HistoryDrainRow → Bool) :
    List HistoryDrainId :=
  db.drainsWhere fun drainId drain =>
    db.historyEventBeforeImages.contains (drainId, event.eventId) && selected drain

/-- Whether an event waits for a drain. -/
def deferredEvent (db : Database) (event : EventRow) : Bool :=
  event.gapKind.isNone &&
    ((event.historyDrainId.any fun drainId => !db.finalizedDrain drainId || db.eventHidden event) ||
      !(db.imageDrains event fun drain => drain.finalizedAtMs.isNone || db.eventHidden event).isEmpty)

/-- The drain that an event waits for. -/
def deferredDrain (db : Database) (event : EventRow) : Option HistoryDrainId :=
  if db.eventHidden event then
    (db.drainsWhere fun drainId drain => drain.finalizedAtMs.isNone &&
      event.taskRunId.any (db.associated drainId)).head?
  else
    match event.historyDrainId with
    | some drainId =>
      if db.finalizedDrain drainId then (db.imageDrains event (·.finalizedAtMs.isNone)).head?
      else some drainId
    | none => (db.imageDrains event (·.finalizedAtMs.isNone)).head?

/-- Files an event under the drain that it waits for; a drain that is missing is an error. -/
def deferEvent (db : Database) (deferred : HashMap HistoryDrainId (List ActivityItem)) (event : EventRow) :
    StoreResult (HashMap HistoryDrainId (List ActivityItem)) :=
  match db.deferredDrain event with
  | none => .error .sqlite
  | some drainId => do
    let item ← activityItem event event.taskRunId
    return deferred.insert drainId ((deferred.get drainId).getD [] ++ [item])

def loadDeferredHistoryActivity (db : Database) : StoreResult (HashMap HistoryDrainId (List ActivityItem)) :=
  (db.latestActivity db.deferredEvent).foldlM db.deferEvent ∅

/-! ### The restored states -/

/-- The ordinal after the largest one. -/
def nextOrdinal (db : Database) : StoreResult ℤ :=
  match db.displayOrdinals.values.max? with
  | none => .ok displayOrdinalBase
  | some maximum =>
    if maximum < i64Max then .ok (maximum + 1)
    else .error (.invalid "display_ordinal" (toString maximum) "the ordinal allocator is exhausted")

/-- The ingest sequence after the last one. -/
def nextIngestSeq (db : Database) : StoreResult (Option ℤ) :=
  if 0 ≤ db.ingestSeqHighWater && db.ingestSeqHighWater ≤ i64Max then
    .ok (if db.ingestSeqHighWater < i64Max then some (db.ingestSeqHighWater + 1) else none)
  else .error (.invalid "meta.ingest_seq_high_water" (toString db.ingestSeqHighWater)
    "ingest sequence high-water mark cannot be negative")

def loadEventLedger (db : Database) : List (String × ℤ) :=
  db.eventLedger.toList.insertionSort fun left right => left.1 ≤ right.1

/-- Restores topology, runs, executions, agents and edges. -/
def restoreModel (db : Database) : StoreResult DomainModel := do
  let model ← db.restoreTopology {}
  let model ← db.restoreTaskRuns model
  let model ← db.runRateTotals.toList.foldlM restoreRateTotals model
  let model ← db.executions.toList.foldlM restoreExecution model
  let model ← db.agentNodes.toList.foldlM db.restoreAgentNode model
  let model := db.executionEdges.keys.foldl DomainModel.insertExecutionEdge model
  let model := db.dependencyEdges.keys.foldl DomainModel.insertDependencyEdge model
  let publications ← db.loadHistoryRunPublications
  return publications.foldl (fun model publication => (model.installHistoryPublication publication).1) model

/-- Restores the model, the deferred activity and the counters. -/
def loadRestoredState (db : Database) : StoreResult RestoredState := do
  let model ← db.restoreModel
  let deferredHistoryActivity ← db.loadDeferredHistoryActivity
  let nextOrdinal ← db.nextOrdinal
  let nextIngestSeq ← db.nextIngestSeq
  return { model, deferredHistoryActivity, nextOrdinal, nextIngestSeq, eventLedger := db.loadEventLedger }

/-- Whether the operator sees an event. -/
def visibleEvent (db : Database) (event : EventRow) : Bool :=
  event.gapKind.isNone && event.historyDrainId.all fun drainId =>
    db.finalizedDrain drainId &&
      (event.taskRunId.isNone || (db.eventRun event).any (·.state.historyReady))

/-- The run that the operator sees an event under: that of the oldest before-image. -/
def shownRun (db : Database) (event : EventRow) : Option RunId :=
  let image := (db.imageDrains event fun drain => drain.finalizedAtMs.isNone || db.eventHidden event).head?
  (image.bind fun drainId => (db.historyEventBeforeImages.get (drainId, event.eventId)).join).or
    event.taskRunId

/-- When the runs that the operator sees ended. -/
def terminalTimes (db : Database) (publications : List HistoryRunPublication) : HashMap RunId ℤ :=
  let canonical := db.taskRuns.toList.filterMap fun row =>
    if row.2.mergedInto.isNone then row.2.finishedAtMs.map fun finishedAtMs => (row.1, finishedAtMs)
    else none
  let current := (HashMap.ofList canonical).retain fun runId _ =>
    runId ∉ publications.map (·.canonicalRunId)
  current.extend (publications.filterMap fun publication =>
    publication.taskRun.finishedAtMs.map fun finishedAtMs => (publication.taskRun.runId, finishedAtMs))

/-- Restores what the operator sees. -/
def loadRestoredOperatorState (db : Database) : StoreResult RestoredOperatorState := do
  let activity ← (db.latestActivity db.visibleEvent).mapM fun event => activityItem event (db.shownRun event)
  let publications ← db.loadHistoryRunPublications
  return { activity, terminalTimes := db.terminalTimes publications }

end Database

end HerdrTop
