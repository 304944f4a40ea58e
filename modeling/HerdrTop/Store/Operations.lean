import HerdrTop.Library.Checked
import HerdrTop.Store.Database
import HerdrTop.Identity.Binding

/-!
# Operations on the tables

What the store does for each operation of a batch. Every function is a sequence of statements in
one transaction: when one fails, nothing is kept.
-/

namespace HerdrTop

namespace Database

/-! ### Ordinals and sessions -/

/-- Gives an entity its ordinal; it never gets another one. -/
def upsertDisplayOrdinal (db : Database) (kind : EntityKind) (entityId : String)
    (displayOrdinal : DisplayOrdinal) : StoreResult Database :=
  match db.displayOrdinals.get (kind, entityId) with
  | some persistedOrdinal =>
    if persistedOrdinal = displayOrdinal then .ok db
    else .error (.invalid "display_ordinal" (toString displayOrdinal)
      s!"{kind.text} {entityId} already owns ordinal {persistedOrdinal}")
  | none => do
    constraint (displayOrdinal ∉ db.displayOrdinals.values)
    return { db with displayOrdinals := db.displayOrdinals.insert (kind, entityId) displayOrdinal }

def deleteDisplayOrdinal (db : Database) (kind : EntityKind) (entityId : String) : Database :=
  { db with displayOrdinals := db.displayOrdinals.remove (kind, entityId) }

def insertNativeSession (db : Database) (provider : Provider) (nativeSessionId : String) : Database :=
  { db with nativeAgentSessions := HashSet.insert db.nativeAgentSessions (provider, nativeSessionId) }

/-! ### Topology -/

def upsertWorkspace (db : Database) (workspace : Workspace) (displayOrdinal : DisplayOrdinal) :
    StoreResult Database := do
  let db ← db.upsertDisplayOrdinal (.topology .workspace) workspace.workspaceId displayOrdinal
  return { db with workspaces := HashSet.insert db.workspaces workspace.workspaceId }

/-- A tab without a label keeps the one that is stored. -/
def upsertTab (db : Database) (tab : Tab) (displayOrdinal : DisplayOrdinal) : StoreResult Database := do
  let db ← db.upsertDisplayOrdinal (.topology .tab) tab.tabId displayOrdinal
  constraint (HashMap.contains db.workspaces tab.workspaceId)
  let label := tab.label.or ((db.tabs.get tab.tabId).bind (·.2))
  return { db with tabs := db.tabs.insert tab.tabId (tab.workspaceId, label) }

/-- A pane without a name keeps the one that is stored. -/
def upsertPane (db : Database) (pane : Pane) (displayOrdinal : DisplayOrdinal) : StoreResult Database := do
  let db ← db.upsertDisplayOrdinal (.topology .pane) pane.paneId displayOrdinal
  constraint (HashMap.contains db.workspaces pane.workspaceId && db.tabs.contains pane.tabId)
  let displayName := pane.displayName.or ((db.panes.get pane.paneId).bind (·.displayName))
  return { db with panes := db.panes.insert pane.paneId { pane with displayName } }

/-- The tabs and panes of the workspace go with it. -/
def deleteWorkspace (db : Database) (workspaceId : String) : Database :=
  let tabs := db.tabs.retain fun _ tab => tab.1 ≠ workspaceId
  { db with
    workspaces := db.workspaces.remove workspaceId
    tabs := tabs
    panes := db.panes.retain fun _ pane => pane.workspaceId ≠ workspaceId && tabs.contains pane.tabId
  }.deleteDisplayOrdinal (.topology .workspace) workspaceId

/-- The panes of the tab go with it. -/
def deleteTab (db : Database) (tabId : String) : Database :=
  { db with
    tabs := db.tabs.remove tabId
    panes := db.panes.retain fun _ pane => pane.tabId ≠ tabId
  }.deleteDisplayOrdinal (.topology .tab) tabId

def clearTabLabel (db : Database) (tabId : String) : Database :=
  { db with tabs := db.tabs.modify tabId fun tab => (tab.1, none) }

def clearPaneDisplayName (db : Database) (paneId : String) : Database :=
  { db with panes := db.panes.modify paneId fun pane => { pane with displayName := none } }

def deletePane (db : Database) (paneId : String) : Database :=
  { db with panes := db.panes.remove paneId }.deleteDisplayOrdinal (.topology .pane) paneId

/-! ### Runs -/

/-- No other run has the key; only made-up keys may repeat. -/
def keyFree (db : Database) (runId : RunId) (key : RunKey) : Bool :=
  key.isProvisional || db.taskRuns.toList.all fun entry => entry.1 = runId || entry.2.key ≠ key

/-- No other run has the session. -/
def nativeFree (db : Database) (runId : RunId) (native : Option NativeSessionBinding) : Bool :=
  native.isNone || db.taskRuns.toList.all fun entry => entry.1 = runId || entry.2.native ≠ native

/-- When a run ended, as storage sees it. -/
def endTime (persisted : PersistTaskRun) : Option ℤ :=
  if persisted.taskRun.state.isTerminal then persisted.finishedAtMs.or (some persisted.updatedAtMs)
  else none

/-- The row that a run is inserted with. -/
def newRow (persisted : PersistTaskRun) : TaskRunRow where
  key := persisted.taskRun.key
  displayOrdinal := persisted.taskRun.displayOrdinal
  taskState := persisted.taskRun.state
  hasControllerTaskStateEvent := persisted.taskRun.hasControllerTaskStateEvent
  native := persisted.nativeSession
  createdAtMs := persisted.createdAtMs
  updatedAtMs := persisted.updatedAtMs
  finishedAtMs := endTime persisted
  subject := persisted.taskRun.subject
  dismissedAtMs := persisted.taskRun.dismissedAtMs

/-- The row of a run that is stored again: its first end and its earliest creation stand. -/
def updatedRow (persisted : PersistTaskRun) (row : TaskRunRow) : TaskRunRow :=
  { row with
    key := persisted.taskRun.key
    taskState := persisted.taskRun.state
    hasControllerTaskStateEvent := persisted.taskRun.hasControllerTaskStateEvent
    native := persisted.nativeSession
    createdAtMs := min row.createdAtMs persisted.createdAtMs
    updatedAtMs := persisted.updatedAtMs
    finishedAtMs := (endTime persisted).map fun finishedAtMs => row.finishedAtMs.getD finishedAtMs
    subject := persisted.taskRun.subject
    dismissedAtMs := persisted.taskRun.dismissedAtMs }

/-- Stores a run; an alias is never stored again. -/
def upsertTaskRun (db : Database) (persisted : PersistTaskRun) : StoreResult Database := do
  let runId := persisted.taskRun.runId
  match (db.taskRuns.get runId).bind (·.mergedInto) with
  | some canonical =>
    .error (.invalid "merged_into" runId.text
      s!"cannot upsert an alias of canonical task run {canonical.text}")
  | none =>
    let db := persisted.nativeSession.elim db fun native =>
      db.insertNativeSession native.provider native.nativeSessionId
    let db ← db.upsertDisplayOrdinal .taskRun runId.text persisted.taskRun.displayOrdinal
    constraint (db.keyFree runId persisted.taskRun.key && db.nativeFree runId persisted.nativeSession)
    match db.taskRuns.get runId with
    | some row => return { db with taskRuns := db.taskRuns.insert runId (updatedRow persisted row) }
    | none =>
      constraint (db.taskRuns.values.all fun row => row.displayOrdinal ≠ persisted.taskRun.displayOrdinal)
      return { db with taskRuns := db.taskRuns.insert runId (newRow persisted) }

/-- An ordinal below every other one, for an alias. -/
def aliasOrdinal (db : Database) : DisplayOrdinal :=
  ((db.taskRuns.values.map (·.displayOrdinal)).min?.getD 0) - 1

/-- The alias row that keeps the old key of a promoted run. -/
def aliasRow (db : Database) (promoted : PersistTaskRun) (oldKey : RunKey) : TaskRunRow where
  key := oldKey
  displayOrdinal := db.aliasOrdinal
  taskState := promoted.taskRun.state
  hasControllerTaskStateEvent := promoted.taskRun.hasControllerTaskStateEvent
  mergedInto := some promoted.taskRun.runId
  createdAtMs := promoted.createdAtMs
  updatedAtMs := promoted.updatedAtMs
  finishedAtMs := promoted.finishedAtMs

/-- Gives a run a stronger key; its old key stays with an alias row. -/
def promoteTaskRunKey (db : Database) (promoted : PersistTaskRun) (oldKey : RunKey)
    (aliasRunId : RunId) : StoreResult Database := do
  match db.canonical promoted.taskRun.runId with
  | none => .error .sqlite
  | some row =>
    let decoded ← decodeRunKey row.key.encode
    if decoded ≠ oldKey then
      .error (.invalid "task_run_key" decoded.debug s!"expected promotion source key {oldKey.debug}")
    else
      let db ← db.upsertTaskRun promoted
      constraint (!db.taskRuns.contains aliasRunId && db.keyFree aliasRunId oldKey)
      return { db with taskRuns := db.taskRuns.insert aliasRunId (db.aliasRow promoted oldKey) }

/-! ### Merges -/

/-- The row of a run that takes part in a merge. -/
def readCanonicalMergeParty (db : Database) (runId : RunId) : StoreResult TaskRunRow :=
  match db.taskRuns.get runId with
  | none => .error (.invalid "task_run_merge" runId.text "merge party does not exist")
  | some row =>
    match row.mergedInto with
    | some target =>
      .error (.invalid "merged_into" runId.text s!"merge party is already an alias of {target.text}")
    | none => .ok row

/-- Changes the row of a run. -/
def modifyRun (db : Database) (runId : RunId) (f : TaskRunRow → TaskRunRow) : Database :=
  { db with taskRuns := db.taskRuns.modify runId f }

/-- The survivor takes over the session of the absorbed run. -/
def mergeBindings (db : Database) (survivor absorbed : RunId) (survivorRow absorbedRow : TaskRunRow) :
    StoreResult Database :=
  match survivorRow.native, absorbedRow.native with
  | none, some native =>
    .ok ((db.modifyRun absorbed fun row => { row with native := none }).modifyRun survivor
      fun row => { row with native := some native })
  | some s, some a =>
    let value := s!"{providerText s.provider}:{s.nativeSessionId}"
    if s = a then
      .error (.invalid "native_session_binding" value
        "the survivor and absorbed rows share one binding despite its UNIQUE invariant")
    else
      .error (.invalid "native_session_binding"
        s!"{value} and {providerText a.provider}:{a.nativeSessionId}"
        "cannot merge task runs with different native-session bindings")
  | _, none => .ok db

/-- One dispatch edge with the survivor in place of the absorbed run: a child has one parent, and the
oldest time stands. -/
def addExecutionEdge (survivor absorbed : RunId) (edges : HashMap RunId (RunId × ℤ))
    (entry : ExecutionEdge × ℤ) : StoreResult (HashMap RunId (RunId × ℤ)) :=
  let parent := substitute entry.1.parentRunId survivor absorbed
  let child := substitute entry.1.childRunId survivor absorbed
  if parent = child then
    .error (.invalid "execution_edge" s!"{parent.text}->{child.text}"
      "task-run merge would create a dispatch self-edge")
  else
    match edges.get child with
    | none => .ok (edges.insert child (parent, entry.2))
    | some (existingParent, oldest) =>
      if existingParent ≠ parent then
        .error (.invalid "execution_edge" child.text
          s!"task-run merge would give one child differing parents {existingParent.text} and {parent.text}")
      else .ok (edges.insert child (existingParent, min oldest entry.2))

def substitutedExecutionEdges (db : Database) (survivor absorbed : RunId) :
    StoreResult (HashMap ExecutionEdge ℤ) := do
  let substituted ← db.executionEdges.toList.foldlM (addExecutionEdge survivor absorbed) ∅
  return HashMap.ofList (substituted.toList.map fun entry => (⟨entry.2.1, entry.1⟩, entry.2.2))

/-- One dependency with the survivor in place of the absorbed run; the oldest time stands. -/
def addDependencyEdge (survivor absorbed : RunId) (edges : HashMap DependencyEdge ℤ)
    (entry : DependencyEdge × ℤ) : StoreResult (HashMap DependencyEdge ℤ) :=
  let prerequisite := substitute entry.1.prerequisiteRunId survivor absorbed
  let dependent := substitute entry.1.dependentRunId survivor absorbed
  if prerequisite = dependent then
    .error (.invalid "dependency_edge" s!"{prerequisite.text}->{dependent.text}"
      "task-run merge would create a dependency self-edge")
  else
    let edge : DependencyEdge := ⟨prerequisite, dependent⟩
    .ok (edges.insert edge (((edges.get edge).map (min · entry.2)).getD entry.2))

def substitutedDependencyEdges (db : Database) (survivor absorbed : RunId) :
    StoreResult (HashMap DependencyEdge ℤ) :=
  db.dependencyEdges.toList.foldlM (addDependencyEdge survivor absorbed) ∅

/-- Keeps which run an event was of, for drains that may still take it back. -/
def keepBeforeImage (db : Database) (drainId : HistoryDrainId) (event : EventRow) : Database :=
  { db with historyEventBeforeImages :=
      db.historyEventBeforeImages.orInsert (drainId, event.eventId) event.taskRunId }

/-- The drains that may still take back what a merge does to the events of the absorbed run. -/
def mergeDrains (db : Database) (survivor absorbed : RunId) (historyDrainId : Option HistoryDrainId) :
    List HistoryDrainId :=
  historyDrainId.toList ++
    ((HashMap.keys db.historyDrainRuns).filter fun association =>
      (association.2 = survivor || association.2 = absorbed) && db.openDrain association.1).map Prod.fst

/-- Keeps the before-images that a merge needs. -/
def keepBeforeImages (db : Database) (survivor absorbed : RunId)
    (historyDrainId : Option HistoryDrainId) : Database :=
  (db.mergeDrains survivor absorbed historyDrainId).foldl (fun db' drainId =>
    (db.events.filter fun event => event.taskRunId = some absorbed).foldl
      (fun db' event => db'.keepBeforeImage drainId event) db') db

/-- The rows that belong to the absorbed run are given to the survivor. -/
def repointRows (db : Database) (survivor absorbed : RunId) : Database :=
  { db with
    executions := db.executions.mapValues fun _ execution =>
      { execution with taskRunId := substitute execution.taskRunId survivor absorbed }
    agentNodes := db.agentNodes.mapValues fun _ node =>
      { node with taskRunId := substitute node.taskRunId survivor absorbed }
    events := db.events.map fun event =>
      { event with taskRunId := event.taskRunId.map (substitute · survivor absorbed) }
    historyRunPublications := db.historyRunPublications.mapValues fun _ publication =>
      { publication with canonicalRunId := substitute publication.canonicalRunId survivor absorbed } }

/-- Whether a drain that is finalized contributed to one of the runs. -/
def completedCoverage (db : Database) (survivor absorbed : RunId) : Bool :=
  (HashMap.keys db.historyDrainRuns).any fun association =>
    (association.2 = survivor || association.2 = absorbed) && db.finalizedDrain association.1

/-- The state of two runs as that of one. -/
def mergedV6State (db : Database) (survivor absorbed : RunId)
    (survivorState absorbedState : TaskRunV6State) : TaskRunV6State :=
  { DomainModel.foldV6 survivorState absorbedState with
    historyReady := survivorState.historyReady || absorbedState.historyReady ||
      db.completedCoverage survivor absorbed }

/-- The totals of two runs as those of one. -/
def mergeRateTotals (db : Database) (survivor absorbed : RunId) : Database :=
  let survivorTotals := db.runRateTotals.get survivor
  let absorbedTotals := db.runRateTotals.get absorbed
  let totals :=
    if survivorTotals.isSome || absorbedTotals.isSome then
      db.runRateTotals.insert survivor
        ((survivorTotals.getD {}).saturatingAdd (absorbedTotals.getD {})).1
    else db.runRateTotals
  { db with runRateTotals := totals.remove absorbed }

/-- What drains contributed to the absorbed run, they contributed to the survivor. -/
def mergeAssociations (db : Database) (survivor absorbed : RunId) : Database :=
  let ofAbsorbed := (HashMap.keys db.historyDrainRuns).filter fun association => association.2 = absorbed
  let extended := HashSet.extend db.historyDrainRuns
    (ofAbsorbed.map fun association => (association.1, survivor))
  { db with historyDrainRuns := HashMap.retain (fun association _ => association.2 ≠ absorbed) extended }

/-- When the survivor of a merge ended. -/
def mergedEndTime (survivorRow absorbedRow : TaskRunRow) : Option ℤ :=
  if survivorRow.taskState.isTerminal then
    match survivorRow.finishedAtMs, absorbedRow.finishedAtMs with
    | some survivorTime, some absorbedTime => some (min survivorTime absorbedTime)
    | some time, none | none, some time => some time
    | none, none => some survivorRow.updatedAtMs
  else none

/-- The absorbed run and its aliases become aliases of the survivor. -/
def redirectAliases (db : Database) (survivor absorbed : RunId) : Database :=
  { db with taskRuns := db.taskRuns.mapValues fun runId row =>
      if row.mergedInto = some absorbed || runId = absorbed then { row with mergedInto := some survivor }
      else row }

/-- Turns a canonical run into an alias of another one. -/
def mergeTaskRuns (db : Database) (survivor absorbed : RunId)
    (historyDrainId : Option HistoryDrainId) : StoreResult Database := do
  if survivor = absorbed then
    .error (.invalid "task_run_merge" survivor.text "survivor and absorbed task runs must be distinct")
  else
    let survivorRow ← db.readCanonicalMergeParty survivor
    let absorbedRow ← db.readCanonicalMergeParty absorbed
    let db ← db.mergeBindings survivor absorbed survivorRow absorbedRow
    let executionEdges ← db.substitutedExecutionEdges survivor absorbed
    let dependencyEdges ← db.substitutedDependencyEdges survivor absorbed
    constraint (historyDrainId.all fun drainId => db.historyDrains.contains drainId)
    let db := db.keepBeforeImages survivor absorbed historyDrainId
    let db := db.repointRows survivor absorbed
    let db := { db with executionEdges, dependencyEdges }
    let state := db.mergedV6State survivor absorbed survivorRow.state absorbedRow.state
    let db := db.modifyRun survivor fun row => { row with state }
    let db := db.mergeRateTotals survivor absorbed
    let db := db.mergeAssociations survivor absorbed
    let finishedAtMs := mergedEndTime survivorRow absorbedRow
    let db := db.modifyRun survivor fun row => { row with finishedAtMs }
    return db.redirectAliases survivor absorbed

/-! ### Executions, agents and edges -/

/-- The columns of an execution; its earliest start stands. -/
def executionRow (persisted : PersistExecution) (stored : Option ExecutionRow) : ExecutionRow where
  paneId := persisted.execution.paneId
  terminalId := persisted.execution.terminalId
  taskRunId := persisted.execution.taskRunId
  execState := persisted.execution.state
  startedAtMs := stored.elim persisted.startedAtMs fun row => min row.startedAtMs persisted.startedAtMs
  updatedAtMs := persisted.updatedAtMs
  endedAtMs :=
    if persisted.execution.state.isTerminal then persisted.endedAtMs.or (some persisted.updatedAtMs)
    else none

def upsertExecution (db : Database) (persisted : PersistExecution) : StoreResult Database := do
  let executionId := persisted.execution.executionId
  constraint (db.taskRuns.contains persisted.execution.taskRunId)
  let row := executionRow persisted (db.executions.get executionId)
  return { db with executions := db.executions.insert executionId row }

/-- The columns of an agent. -/
def agentNodeRow (node : AgentNode) : StoreResult AgentNodeRow := do
  let state ← node.state.mapM agentNodeStateText
  let itemCount ← node.lastItemCount.mapM (signedCount "agent_nodes.last_item_count")
  let byteCount ← node.lastByteCount.mapM (signedCount "agent_nodes.last_byte_count")
  return {
    provider := node.provider
    nativeSessionId := node.nativeSessionId
    taskRunId := node.taskRunId
    parentAgentNodeId := node.parentAgentNodeId
    state
    modelId := node.modelId
    lastEventKind := node.lastEventKind
    lastToolName := node.lastToolName
    lastItemCount := itemCount
    lastByteCount := byteCount
    lastActivityAtMs := node.lastActivityAtMs
    sessionFile := node.sessionFile }

def upsertAgentNode (db : Database) (node : AgentNode) : StoreResult Database := do
  let db := node.nativeSessionId.elim db (db.insertNativeSession node.provider)
  let db ← db.upsertDisplayOrdinal .agentNode node.agentNodeId node.displayOrdinal
  let row ← agentNodeRow node
  constraint (db.taskRuns.contains node.taskRunId)
  return { db with agentNodes := db.agentNodes.insert node.agentNodeId row }

/-- An edge that is known keeps its time; a child has one parent. -/
def upsertExecutionEdge (db : Database) (edge : ExecutionEdge) (createdAtMs : ℤ) :
    StoreResult Database := do
  if db.executionEdges.contains edge then return db
  else
    constraint (edge.parentRunId ≠ edge.childRunId && db.taskRuns.contains edge.parentRunId &&
      db.taskRuns.contains edge.childRunId &&
      db.executionEdges.keys.all fun other => other.childRunId ≠ edge.childRunId)
    return { db with executionEdges := db.executionEdges.insert edge createdAtMs }

def upsertDependencyEdge (db : Database) (edge : DependencyEdge) (createdAtMs : ℤ) :
    StoreResult Database := do
  if db.dependencyEdges.contains edge then return db
  else
    constraint (edge.prerequisiteRunId ≠ edge.dependentRunId &&
      db.taskRuns.contains edge.prerequisiteRunId && db.taskRuns.contains edge.dependentRunId)
    return { db with dependencyEdges := db.dependencyEdges.insert edge createdAtMs }

/-! ### Events -/

/-- The metadata of an event and the name of its kind. -/
def eventMetadata : NormalizedEvent → EventMetadata × String
  | .controllerEvent metadata _ => (metadata, "controller_event")
  | .topologyUpsert metadata _ _ => (metadata, "topology_upsert")
  | .topologyClosure metadata _ => (metadata, "topology_closure")
  | .agentStatusChanged metadata _ _ => (metadata, "agent_status_changed")
  | .agentNodeUpsert metadata _ => (metadata, "agent_node_upsert")
  | .agentActivity metadata _ _ => (metadata, "agent_activity")
  | .executionBegin metadata _ => (metadata, "execution_begin")
  | .executionEnd metadata _ => (metadata, "execution_end")

/-- The columns of an event. -/
def relationalEventProjection (event : NormalizedEvent) (seenAtMs : ℤ)
    (historyDrainId : Option HistoryDrainId) (taskRunId : Option RunId) : StoreResult EventRow := do
  let (metadata, normalizedKind) := eventMetadata event
  let provider := metadata.providerMetadata
  let itemCount ← (provider.bind (·.itemCount)).mapM (signedCount "event.item_count")
  let byteCount ← (provider.bind (·.byteCount)).mapM (signedCount "event.byte_count")
  let ingestSeq ← metadata.ingestSeq.mapM (signedCount "event.ingest_seq")
  return {
    eventId := metadata.eventId
    seenAtMs
    eventTimestampMs := metadata.timestampMs
    herdrSession := metadata.herdrSession
    source := metadata.source
    normalizedKind
    sourceEventType := metadata.sourceEventType
    workspaceId := metadata.workspaceId
    tabId := metadata.tabId
    paneId := metadata.paneId
    terminalId := metadata.terminalId
    provider := metadata.provider
    nativeSessionId := metadata.nativeSessionId
    taskRunId
    agentNodeId := metadata.agentNodeId
    taskState := metadata.taskState
    modelId := provider.bind (·.modelId)
    providerEventKind := provider.bind (·.eventKind)
    toolName := provider.bind (·.toolName)
    itemCount
    byteCount
    ingestSeq
    providerAgentId := provider.bind (·.agentId)
    providerParentAgentId := provider.bind (·.parentAgentId)
    sourceCoverage := if metadata.source = "provider" then some metadata.sourceCoverage else none
    historyDrainId }

/-- Records the name of an event; whether it is new. -/
def insertLedger (db : Database) (eventId : String) (seenAtMs : ℤ) : Database × Bool :=
  if db.eventLedger.contains eventId then (db, false)
  else ({ db with eventLedger := db.eventLedger.insert eventId seenAtMs }, true)

/-- Adds the row of an event. -/
def insertEvent (db : Database) (row : EventRow) : StoreResult Database := do
  constraint (db.events.all fun event => event.eventId ≠ row.eventId)
  return { db with events := db.events ++ [row] }

/-- Records an event once. -/
def recordEvent (db : Database) (event : NormalizedEvent) (seenAtMs : ℤ)
    (historyDrainId : Option HistoryDrainId) : StoreResult Database := do
  let metadata := (eventMetadata event).1
  let (db, inserted) := db.insertLedger metadata.eventId seenAtMs
  if inserted then
    db.insertEvent (← relationalEventProjection event seenAtMs historyDrainId metadata.taskRunId)
  else return db

/-- Records a gap once. -/
def recordGap (db : Database) (gap : CollectorGap) : StoreResult Database :=
  let (db, inserted) := db.insertLedger gap.eventId gap.seenAtMs
  if inserted then
    db.insertEvent
      { eventId := gap.eventId
        seenAtMs := gap.seenAtMs
        eventTimestampMs := gap.seenAtMs
        herdrSession := gap.herdrSession
        source := "collector"
        normalizedKind := "collector_gap"
        sourceEventType := "observation_gap"
        gapKind := some gap.kind }
  else .ok db

/-- The ingest sequence only advances. -/
def advanceIngestSequence (db : Database) (ingestSeq : ℤ) : StoreResult Database :=
  if db.ingestSeqHighWater < ingestSeq then .ok { db with ingestSeqHighWater := ingestSeq }
  else .error (.invalid "ingest_seq" (toString ingestSeq)
    s!"sequence must advance durable high-water mark {db.ingestSeqHighWater}")

/-! ### One operation -/

def applyOperation (historyDrainId : Option HistoryDrainId) (db : Database) :
    PersistOp → StoreResult Database
  | .upsertWorkspace workspace displayOrdinal => db.upsertWorkspace workspace displayOrdinal
  | .upsertTab tab displayOrdinal => db.upsertTab tab displayOrdinal
  | .upsertPane pane displayOrdinal => db.upsertPane pane displayOrdinal
  | .deleteWorkspace workspaceId => .ok (db.deleteWorkspace workspaceId)
  | .deleteTab tabId => .ok (db.deleteTab tabId)
  | .clearTabLabel tabId => .ok (db.clearTabLabel tabId)
  | .clearPaneDisplayName paneId => .ok (db.clearPaneDisplayName paneId)
  | .deletePane paneId => .ok (db.deletePane paneId)
  | .upsertTaskRun run => db.upsertTaskRun run
  | .promoteTaskRunKey promoted oldKey aliasRunId => db.promoteTaskRunKey promoted oldKey aliasRunId
  | .mergeTaskRuns survivor absorbed => db.mergeTaskRuns survivor absorbed historyDrainId
  | .upsertExecution execution => db.upsertExecution execution
  | .upsertAgentNode node => db.upsertAgentNode node
  | .upsertExecutionEdge edge createdAtMs => db.upsertExecutionEdge edge createdAtMs
  | .upsertDependencyEdge edge createdAtMs => db.upsertDependencyEdge edge createdAtMs
  | .recordEvent event seenAtMs => db.recordEvent event seenAtMs historyDrainId
  | .recordCollectorGap gap => db.recordGap gap
  | .advanceIngestSequence ingestSeq => db.advanceIngestSequence ingestSeq

/-- Applies a batch in one transaction. -/
def applyBatch (db : Database) (batch : PersistBatch) : StoreResult Database :=
  batch.foldlM (applyOperation none) db

end Database

end HerdrTop
