import HerdrTop.Reducer.Lifecycle

/-!
# Applying one event

`applyInner` runs an event through its stages: the runs it needs are created, the Controller
part of its metadata is applied, then its body, then the identity evidence it carries, then
the lifecycle of its session, and last the bookkeeping of who ended a run.
-/

namespace HerdrTop.Tx

/-! ### Creating runs -/

/-- A run that nothing has happened to. -/
def newTaskRun (runId : RunId) (key : RunKey) (ordinal : DisplayOrdinal) (state : TaskState)
    (hasControllerTaskStateEvent : Bool) : TaskRun where
  runId := runId
  key := key
  displayOrdinal := ordinal
  state := state
  hasControllerTaskStateEvent := hasControllerTaskStateEvent

/-- The session key of an event when nobody has it, else a key made up for the terminal. -/
def observedKey (m : DomainModel) (metadata : EventMetadata) (terminalId : String)
    (timestampMs : ℤ) (ordinal : DisplayOrdinal) : RunKey :=
  match metadata.nativeSession with
  | some (provider, sid) =>
    if (m.taskRunByKey (.native provider sid)).isNone then .native provider sid
    else provisionalKey terminalId timestampMs ordinal
  | none => provisionalKey terminalId timestampMs ordinal

/-- Creates a run under the next ordinal unless it exists. -/
def createUnless (tx : Tx) (runId : RunId) (timestampMs : ℤ) (run : DisplayOrdinal → TaskRun) :
    Except ReducerFailure Tx :=
  if (tx.model.taskRun runId).isSome then .ok tx
  else do
    let (ordinal, tx) ← tx.allocateOrdinal
    .ok (tx.storeRun (stampNewTaskRun (run ordinal) timestampMs) timestampMs)

/-- Makes sure that the run of an execution exists. -/
def ensureExecutionRun (tx : Tx) (execution : Execution) (metadata : EventMetadata) :
    Except ReducerFailure Tx :=
  let timestampMs := runBookkeepingTimeMs metadata
  tx.createUnless execution.taskRunId timestampMs fun ordinal =>
    newTaskRun execution.taskRunId
      (observedKey tx.model metadata execution.terminalId timestampMs ordinal) ordinal .running false

/-- Makes sure that the run of an event exists; `controllerKey` is its name when it has one. -/
def ensureMetadataRun (tx : Tx) (runId : RunId) (metadata : EventMetadata)
    (controllerReference : Bool) (controllerKey : Option String) (initialState : TaskState) :
    Except ReducerFailure Tx :=
  let timestampMs := runBookkeepingTimeMs metadata
  tx.createUnless runId timestampMs fun ordinal =>
    newTaskRun runId
      (if controllerReference then .controller (controllerKey.getD runId.text)
      else observedKey tx.model metadata (metadata.terminalId.getD "unknown-terminal") timestampMs
        ordinal)
      ordinal initialState metadata.taskState.isSome

/-- Makes sure that a run named by a relationship exists. -/
def ensureControllerPlaceholder (tx : Tx) (runId : RunId) (controllerKey : Option String)
    (timestampMs : ℤ) : Except ReducerFailure Tx :=
  tx.createUnless runId timestampMs fun ordinal =>
    newTaskRun runId (.controller (controllerKey.getD runId.text)) ordinal .queued false

/-- Whether an event speaks for its run as a Controller does. -/
def controllerReference (metadata : EventMetadata) : Bool :=
  metadata.taskState.isSome || metadata.executionParent.isSome || metadata.dependency.isSome

/-- The state in which an event creates its run. -/
def eventInitialState (metadata : EventMetadata) : TaskState :=
  match metadata.taskState with
  | some state => initialControllerState metadata.sourceEventType state
  | none => if controllerReference metadata then .queued else .running

/-- Makes sure that the run of an execution that begins exists. -/
def ensureBegunRun (tx : Tx) (event : NormalizedEvent) (metadata : EventMetadata) :
    Except ReducerFailure Tx :=
  match event with
  | .executionBegin _ execution => tx.ensureExecutionRun execution metadata
  | _ => .ok tx

/-- Makes sure that the run an event names exists; provider observations do not create one. -/
def ensureNamedRun (tx : Tx) (metadata : EventMetadata) : Except ReducerFailure Tx :=
  match metadata.taskRunId with
  | some runId =>
    if metadata.source = "provider" then .ok tx
    else tx.ensureMetadataRun runId metadata (controllerReference metadata) none
      (eventInitialState metadata)
  | none => .ok tx

/-- Makes sure that both ends of an edge exist. -/
def ensureEnds (tx : Tx) (ends : Option (RunId × RunId)) (timestampMs : ℤ) :
    Except ReducerFailure Tx :=
  match ends with
  | some (first, second) => do
    let tx ← tx.ensureControllerPlaceholder first none timestampMs
    tx.ensureControllerPlaceholder second none timestampMs
  | none => .ok tx

/-- Makes sure that the runs an event names exist. -/
def ensureEventRuns (tx : Tx) (event : NormalizedEvent) (metadata : EventMetadata) :
    Except ReducerFailure Tx := do
  let tx ← tx.ensureBegunRun event metadata
  let tx ← tx.ensureNamedRun metadata
  let tx ← tx.ensureEnds
    (metadata.executionParent.map fun edge => (edge.parentRunId, edge.childRunId))
    (runBookkeepingTimeMs metadata)
  tx.ensureEnds
    (metadata.dependency.map fun edge => (edge.prerequisiteRunId, edge.dependentRunId))
    (runBookkeepingTimeMs metadata)

/-! ### The Controller part -/

/-- The subject of a run after an event: the first label stands, unless the lane renames the root
session of a Claude run. -/
def nextSubject (subject : Option String) (metadata : EventMetadata) : Option String :=
  let laneClaudeRootSubject := metadata.source = sourceLogLane ∧
    metadata.sourceEventType = "progress" ∧ metadata.provider = some .claude ∧
    metadata.nativeSessionId.isSome
  if subject.isNone ∨ laneClaudeRootSubject then
    (metadata.label.filter fun label => label ≠ "").or subject
  else subject

/-- Notes that something else than the lane spoke for a run. -/
def noteTaskStateSource (tx : Tx) (metadata : EventMetadata) (runId : RunId) : Tx :=
  if metadata.source = sourceLogLane then tx
  else { tx with nonLaneTaskStateRuns := HashSet.insert tx.nonLaneTaskStateRuns runId }

/-- Applies the task state of an event to its run. -/
def applyTaskState (tx : Tx) (metadata : EventMetadata) (allowLaneReopen : Bool) : Tx :=
  match metadata.taskRunId, metadata.taskState with
  | some runId, some target =>
    match tx.model.taskRun runId with
    | none => tx
    | some taskRun =>
      let tx := tx.noteTaskStateSource metadata runId
      let timestampMs := runBookkeepingTimeMs metadata
      tx.storeRun (touchTaskRun
        { taskRun with
          hasControllerTaskStateEvent := true
          state := controllerTaskTransition taskRun.state metadata.sourceEventType target
            allowLaneReopen
          subject := nextSubject taskRun.subject metadata } timestampMs) timestampMs
  | _, _ => tx

/-- Adds a dispatch edge that is not there yet. -/
def addExecutionEdge (tx : Tx) (edge : ExecutionEdge) (receiptTimeMs : ℤ) : Tx :=
  if tx.model.executionEdges.contains edge then tx
  else (tx.withModel (tx.model.insertExecutionEdge edge)).push
    (.upsertExecutionEdge edge receiptTimeMs)

/-- Adds a dependency edge that is not there yet. -/
def addDependencyEdge (tx : Tx) (edge : DependencyEdge) (receiptTimeMs : ℤ) : Tx :=
  if tx.model.dependencyEdges.contains edge then tx
  else (tx.withModel (tx.model.insertDependencyEdge edge)).push
    (.upsertDependencyEdge edge receiptTimeMs)

/-- Applies the task state and the edges of an event. -/
def applyControllerMetadata (tx : Tx) (metadata : EventMetadata) (allowLaneReopen : Bool) : Tx :=
  let tx := tx.applyTaskState metadata allowLaneReopen
  let tx := metadata.executionParent.elim tx fun edge =>
    tx.addExecutionEdge edge metadata.receiptTimeMs
  metadata.dependency.elim tx fun edge => tx.addDependencyEdge edge metadata.receiptTimeMs

/-- Remembers the source of the event that ended a run, until the run starts again. -/
def updateTerminalEventSource (tx : Tx) (event : NormalizedEvent) : Tx :=
  match event with
  | .controllerEvent metadata kind =>
    match metadata.taskRunId with
    | none => tx
    | some runId =>
      if kind.isTerminal then
        { tx with terminalEventSources := tx.terminalEventSources.insert runId metadata.source }
      else if kind = .taskStarted ∧
          (tx.model.taskRun runId).any (fun run => !run.state.isTerminal) = true then
        { tx with terminalEventSources := tx.terminalEventSources.remove runId }
      else tx
  | _ => tx

/-! ### Topology -/

/-- A name as an observation leaves it: a partial one is silent when it has none. -/
def nextName (authority : TopologyAuthority) (observed current : Option String) : Option String :=
  match authority with
  | .partially => (observed.map sanitizeControllerText).or current
  | .authoritative => (observed.map sanitizeControllerText).filter fun name => name ≠ ""

def storeWorkspace (tx : Tx) (workspace : Workspace) : Except ReducerFailure Tx := do
  let (ordinal, tx) ← tx.topologyOrdinalOrAllocate .workspace workspace.workspaceId
  .ok ((tx.withModel (tx.model.insertWorkspace workspace)).push (.upsertWorkspace workspace ordinal))

/-- Stores a tab; `clear` when the absence of a label is to be recorded. -/
def storeTab (tx : Tx) (tab : Tab) (clear : Bool) : Except ReducerFailure Tx := do
  let (ordinal, tx) ← tx.topologyOrdinalOrAllocate .tab tab.tabId
  let tx := (tx.withModel (tx.model.insertTab tab)).push (.upsertTab tab ordinal)
  .ok (if clear && tab.label.isNone then tx.push (.clearTabLabel tab.tabId) else tx)

/-- Stores a pane; `clear` when the absence of a name is to be recorded. -/
def storePane (tx : Tx) (pane : Pane) (clear : Bool) : Except ReducerFailure Tx := do
  let (ordinal, tx) ← tx.topologyOrdinalOrAllocate .pane pane.paneId
  let tx := (tx.withModel (tx.model.insertPane pane)).push (.upsertPane pane ordinal)
  .ok (if clear && pane.displayName.isNone then tx.push (.clearPaneDisplayName pane.paneId) else tx)

/-- Adds or changes a topology row. -/
def applyTopologyUpsert (tx : Tx) (authority : TopologyAuthority) (entity : TopologyEntity) :
    Except ReducerFailure Tx :=
  match entity with
  | .workspace workspace => tx.storeWorkspace workspace
  | .tab tab =>
    if (tx.model.workspaces.get tab.workspaceId).isNone then .ok tx
    else tx.storeTab
      { tab with label := nextName authority tab.label ((tx.model.tabs.get tab.tabId).bind (·.label)) }
      (authority = .authoritative)
  | .pane pane =>
    if (tx.model.tabs.get pane.tabId).isNone then .ok tx
    else tx.storePane
      { pane with
        displayName := nextName authority pane.displayName
          ((tx.model.panes.get pane.paneId).bind (·.displayName)) }
      (authority = .authoritative)

/-- Ends an execution, and its run when nothing keeps that going. -/
def endExecution (tx : Tx) (executionId : String) (timestampMs : ℤ) : Tx :=
  match tx.model.execution executionId with
  | none => tx
  | some execution =>
    let execution := { execution with state := .ended }
    let tx := (tx.withModel (tx.model.insertExecution execution)).push
      (persistExecution execution timestampMs)
    tx.closeRunWithoutLiveExecution execution.taskRunId timestampMs

/-- Removes the row of a pane. -/
def dropPane (tx : Tx) (paneId : String) : Tx :=
  if (tx.model.panes.get paneId).isSome then
    (tx.withModel ((tx.model.removePane paneId).removeTopologyOrdinal .pane paneId)).push
      (.deletePane paneId)
  else tx.withModel (tx.model.removePane paneId)

/-- Removes a pane after its executions were ended. -/
def closePane (tx : Tx) (paneId : String) (timestampMs : ℤ) : Tx :=
  let executionIds := (tx.model.executions.values.filter fun execution =>
    execution.paneId = paneId && !execution.state.isTerminal).map (·.executionId)
  (executionIds.foldl (fun tx executionId => tx.endExecution executionId timestampMs) tx).dropPane
    paneId

/-- Removes the row of a tab. -/
def dropTab (tx : Tx) (tabId : String) : Tx :=
  if (tx.model.tabs.get tabId).isSome then
    (tx.withModel ((tx.model.removeTab tabId).removeTopologyOrdinal .tab tabId)).push
      (.deleteTab tabId)
  else tx

/-- Removes the row of a workspace. -/
def dropWorkspace (tx : Tx) (workspaceId : String) : Tx :=
  if (tx.model.workspaces.get workspaceId).isSome then
    (tx.withModel ((tx.model.removeWorkspace workspaceId).removeTopologyOrdinal .workspace
      workspaceId)).push (.deleteWorkspace workspaceId)
  else tx

/-- Removes a tab after its panes were closed. -/
def closeTab (tx : Tx) (tabId : String) (timestampMs : ℤ) : Tx :=
  let paneIds := (tx.model.panes.values.filter fun pane => pane.tabId = tabId).map (·.paneId)
  (paneIds.foldl (fun tx paneId => tx.closePane paneId timestampMs) tx).dropTab tabId

/-- Removes a topology row with everything under it. -/
def applyTopologyClosure (tx : Tx) (entity : TopologyEntityId) (timestampMs : ℤ) : Tx :=
  match entity with
  | .workspace workspaceId =>
    let tabIds := (tx.model.tabs.values.filter fun tab => tab.workspaceId = workspaceId).map (·.tabId)
    (tabIds.foldl (fun tx tabId => tx.closeTab tabId timestampMs) tx).dropWorkspace workspaceId
  | .tab tabId => tx.closeTab tabId timestampMs
  | .pane paneId => tx.closePane paneId timestampMs

/-- Moves an execution to the state an observation leads to. -/
def applyExecutionState (tx : Tx) (executionId : String) (observed : ExecState)
    (metadata : EventMetadata) : Tx :=
  match tx.model.execution executionId with
  | none => tx
  | some execution =>
    let execution :=
      { execution with state := nextExecutionState execution.state observed metadata }
    let tx := tx.withModel (tx.model.insertExecution execution)
    if execution.state.isTerminal then
      tx.closeRunWithoutLiveExecution execution.taskRunId metadata.receiptTimeMs
    else tx

/-! ### Agents -/

/-- The least of some texts. -/
def leastText (texts : List String) : Option String :=
  texts.foldl (fun least text => some (least.elim text fun l => if text < l then text else l)) none

/-- The agent of a run that carries a session. -/
def agentNodeIdForNative (m : DomainModel) (provider : Provider) (sid : String) (runId : RunId) :
    Option String :=
  leastText ((m.agentNodes.values.filter fun node =>
    node.taskRunId = runId && node.provider = provider && node.nativeSessionId = some sid).map
      (·.agentNodeId))

/-- The agent a parent link names: by the identity made from its session, else by its own. -/
def resolveParentNodeId (m : DomainModel) (requestedId : String) (provider : Provider)
    (runId : RunId) : String :=
  ((m.agentNodes.values.find? fun node =>
    node.taskRunId = runId && node.provider = provider &&
      node.nativeSessionId.any fun sid => deterministicAgentNodeId provider sid = requestedId).map
        (·.agentNodeId)).getD requestedId

/-- Follows parent links up from an agent; false when they reach the child or run in a circle.
The fuel is the number of agents and one. -/
def parentChainAvoids (m : DomainModel) (childId : String) : ℕ → List String → String → Bool
  | 0, _, _ => false
  | fuel + 1, visited, nodeId =>
    if nodeId = childId ∨ nodeId ∈ visited then false
    else match (m.agentNode nodeId).bind (·.parentAgentNodeId) with
      | some parentId => parentChainAvoids m childId fuel (nodeId :: visited) parentId
      | none => true

/-- Whether an agent may become the parent of another one. -/
def providerParentIsValid (m : DomainModel) (childId parentId : String) : Bool :=
  if childId = parentId then false
  else parentChainAvoids m childId (m.agentNodes.keys.length + 2) [] parentId

/-- The state of an agent after an observation: an end stands. -/
def nextAgentState (current observed : Option ExecState) : Option ExecState :=
  match observed with
  | some .ended => some .ended
  | some .working => if current = some .ended then current else some .working
  | _ => current

/-- A new agent of a run. -/
def newAgentNode (agentNodeId : String) (provider : Provider) (nativeSessionId : Option String)
    (taskRunId : RunId) (ordinal : DisplayOrdinal) : AgentNode where
  agentNodeId := agentNodeId
  provider := provider
  nativeSessionId := nativeSessionId
  taskRunId := taskRunId
  displayOrdinal := ordinal

/-- The agent an observation is about, created when there is none. -/
def observedAgentNode (tx : Tx) (observed : AgentNodeObservation) :
    Except ReducerFailure (AgentNode × Tx) :=
  let existingId := (observed.nativeSessionId.bind fun sid =>
    agentNodeIdForNative tx.model observed.provider sid observed.taskRunId).or
      ((tx.model.agentNode observed.agentNodeId).map (·.agentNodeId))
  match existingId.bind tx.model.agentNode with
  | some node => .ok (node, tx)
  | none => do
    let (ordinal, tx) ← tx.allocateOrdinal
    .ok (newAgentNode ((observed.nativeSessionId.map (deterministicAgentNodeId observed.provider)).getD
      observed.agentNodeId) observed.provider observed.nativeSessionId observed.taskRunId ordinal, tx)

/-- An agent with what an observation says about it. -/
def patchAgentNode (node : AgentNode) (observed : AgentNodeObservation) : AgentNode :=
  { node with
    nativeSessionId := observed.nativeSessionId.or node.nativeSessionId
    state := nextAgentState node.state observed.state
    modelId := observed.modelId.or node.modelId
    sessionFile := observed.sessionFile.or node.sessionFile }

/-- Gives an agent the parent that an observation names, unless that is not possible. -/
def linkParent (tx : Tx) (node : AgentNode) (parent : Option String) : AgentNode × Tx :=
  match parent with
  | none => (node, tx)
  | some requestedId =>
    let parentId := resolveParentNodeId tx.model requestedId node.provider node.taskRunId
    if providerParentIsValid tx.model node.agentNodeId parentId then
      ({ node with parentAgentNodeId := some parentId }, tx)
    else (node, tx.withModel (tx.model.updateDiagnostics (·.recordProviderParentConflict)))

/-- Stores an agent in the model and hands it to the store. -/
def storeAgentNode (tx : Tx) (node : AgentNode) : Tx :=
  (tx.withModel (tx.model.insertAgentNode node)).push (.upsertAgentNode node)

/-- Adds or patches an agent. -/
def applyAgentNodeObservation (tx : Tx) (observed : AgentNodeObservation) :
    Except ReducerFailure Tx :=
  if (tx.model.taskRun observed.taskRunId).isNone then .ok tx
  else do
    let (node, tx) ← tx.observedAgentNode observed
    let (node, tx) := tx.linkParent (patchAgentNode node observed) observed.parentAgentNodeId
    .ok (tx.storeAgentNode node)

/-- Records an agent's activity unless something later is known. -/
def applyAgentActivity (tx : Tx) (requestedId : String) (activity : MinimalProviderMetadata)
    (metadata : EventMetadata) : Tx :=
  let bySession := match metadata.provider, activity.agentId with
    | some provider, some sid => leastText ((tx.model.agentNodes.values.filter fun node =>
        node.provider = provider && node.nativeSessionId = some sid).map (·.agentNodeId))
    | _, _ => none
  let resolvedId := ((tx.model.agentNode requestedId).map (·.agentNodeId)).or bySession
  match resolvedId.bind tx.model.agentNode with
  | none => tx
  | some node =>
    if node.lastActivityAtMs.any (metadata.timestampMs < ·) then tx
    else
      let node :=
        { node with
          lastActivityAtMs := some metadata.timestampMs
          modelId := activity.modelId.or node.modelId
          lastEventKind := activity.eventKind.or node.lastEventKind
          lastToolName := activity.toolName.or node.lastToolName
          lastItemCount := activity.itemCount.or node.lastItemCount
          lastByteCount := activity.byteCount.or node.lastByteCount }
      tx.storeAgentNode node

/-! ### The body of an event -/

/-- The provider's word for the kind of the run that an event starts. -/
def startedKind (event : ControllerEventKind) (metadata : EventMetadata) : Option (RunId × String) :=
  match event, metadata.taskRunId, metadata.providerMetadata.bind (·.eventKind) with
  | .dispatch _, some runId, some kind => some (runId, kind)
  | .taskStarted, some runId, some kind => some (runId, kind)
  | _, _, _ => none

/-- Applies what an event reports. -/
def applyEventBody (tx : Tx) (event : NormalizedEvent) (metadata : EventMetadata) :
    Except ReducerFailure Tx :=
  match event with
  | .controllerEvent _ kind =>
    .ok (match startedKind kind metadata with
      | some (runId, name) => tx.withModel (tx.model.setRunKind runId name)
      | none => tx)
  | .topologyUpsert _ authority entity => tx.applyTopologyUpsert authority entity
  | .topologyClosure _ entity => .ok (tx.applyTopologyClosure entity metadata.receiptTimeMs)
  | .agentStatusChanged _ executionId state =>
    .ok (tx.applyExecutionState executionId state metadata)
  | .agentNodeUpsert _ node => tx.applyAgentNodeObservation node
  | .agentActivity _ agentNodeId activity =>
    .ok (tx.applyAgentActivity agentNodeId activity metadata)
  | .executionBegin _ execution => .ok (tx.withModel (tx.model.insertExecution execution))
  | .executionEnd _ executionId => .ok (tx.endExecution executionId metadata.receiptTimeMs)

/-! ### Identity evidence -/

/-- Plans a binding and applies it. -/
def applyBinding (tx : Tx) (evidence : BindingEvidence) (bookkeepingTimeMs : ℤ)
    (aliasRunId : RunId) : Except ReducerFailure Tx :=
  match applyBindingPlanAt tx.model (planBinding tx.model evidence) bookkeepingTimeMs aliasRunId with
  | (model, .ok persist) => .ok { tx with model := model, persist := tx.persist ++ persist }
  | (model, .error conflict) => .error ⟨.bindingConflict conflict, { tx.toCore with model }⟩

/-- The run an event is about by its body. -/
def eventRun (m : DomainModel) : NormalizedEvent → Option RunId
  | .executionBegin _ execution => some execution.taskRunId
  | .agentNodeUpsert _ node => some node.taskRunId
  | .agentStatusChanged _ executionId _ => (m.execution executionId).map (·.taskRunId)
  | .executionEnd _ executionId => (m.execution executionId).map (·.taskRunId)
  | _ => none

/-- The evidence that an event's session gives for a run. -/
def sessionEvidence (metadata : EventMetadata) (runId : RunId) (key : RunKey) (provider : Provider)
    (sid : String) : BindingEvidence :=
  match key with
  | .nativePath _ _ =>
    if metadata.source = "provider" ∧ metadata.sourceEventType = "session_resolved" then
      .nativePathResolved runId provider sid
    else .nativeSession runId provider sid
  | .controller _ => .controllerNativeSession runId provider sid
  | _ => .nativeSession runId provider sid

/-- Binds the session an event names to its run. -/
def bindSession (tx : Tx) (metadata : EventMetadata) (runId : RunId) (key : RunKey)
    (aliasRunId : RunId) : Except ReducerFailure Tx :=
  match metadata.nativeSession with
  | some (provider, sid) =>
    tx.applyBinding (sessionEvidence metadata runId key provider sid) (runBookkeepingTimeMs metadata)
      aliasRunId
  | none => .ok tx

/-- Binds the terminal an event names to its run, if that is a Controller run. -/
def bindTerminal (tx : Tx) (metadata : EventMetadata) (runId : RunId) (aliasRunId : RunId) :
    Except ReducerFailure Tx :=
  match metadata.terminalId with
  | some terminalId =>
    if (tx.model.taskRun runId).any (·.key.isController) ∧ terminalId ≠ "" then
      tx.applyBinding (.controllerTerminal runId terminalId) (runBookkeepingTimeMs metadata)
        aliasRunId
    else .ok tx
  | none => .ok tx

/-- Lets the run of a new execution go on. -/
def activateBegun (tx : Tx) (event : NormalizedEvent) (timestampMs : ℤ) : Tx :=
  match event with
  | .executionBegin _ execution =>
    match tx.model.execution execution.executionId with
    | some current =>
      if current.state.isTerminal then tx
      else tx.activateForLiveExecution current.taskRunId timestampMs
    | none => tx
  | _ => tx

/-- Applies the identity evidence an event carries. -/
def applyIdentityMetadata (tx : Tx) (event : NormalizedEvent) (metadata : EventMetadata)
    (aliasRunId : RunId) : Except ReducerFailure Tx :=
  match metadata.taskRunId.or (eventRun tx.model event) with
  | none => .ok tx
  | some runId =>
    match tx.model.taskRun runId with
    | none => .ok tx
    | some taskRun => do
      let tx ← tx.bindSession metadata runId taskRun.key aliasRunId
      let tx ← tx.bindTerminal metadata runId aliasRunId
      .ok (tx.activateBegun event (runBookkeepingTimeMs metadata))

/-! ### One event -/

/-- The run that has the session of an event. -/
def sessionOwner (m : DomainModel) (metadata : EventMetadata) : Option RunId :=
  match metadata.provider, metadata.nativeSessionId with
  | some provider, some sid => (m.taskRunByKey (.native provider sid)).map (·.runId)
  | _, _ => none

/-- The watermark of an event. -/
def eventWatermark (metadata : EventMetadata) : NativeLifecycleWatermark :=
  ⟨metadata.timestampMs, metadata.receiptTimeMs, metadata.eventId⟩

/-- How an event of the provider lane says that a session ended. -/
def terminalEndStatus : ControllerEventKind → Option NativeSessionEndStatus
  | .complete => some .done
  | .failed => some .error
  | .cancelled => some .cancelled
  | _ => none

/-- Whether the event tells the end of a native session rather than that of a task. -/
def laneNativeTerminal (metadata : EventMetadata) (kind : ControllerEventKind) : Bool :=
  kind.isTerminal && metadata.source = sourceLogLane && metadata.nativeSession.isSome

/-- Applies the lifecycle of a session that a Controller event reports. -/
def applyEventLifecycle (tx : Tx) (event : NormalizedEvent) (metadata : EventMetadata) : Tx :=
  match event with
  | .controllerEvent _ kind =>
    let lifecycleEnd := if laneNativeTerminal metadata kind then terminalEndStatus kind else none
    let lifecycleReopen := kind = .taskStarted ∧ metadata.nativeSession.isSome
    if lifecycleEnd.isSome ∨ lifecycleReopen then
      match sessionOwner tx.model metadata with
      | some runId => tx.applyNativeLifecycle runId lifecycleEnd (eventWatermark metadata)
      | none => tx
    else tx
  | _ => tx

/-- Whether the event shows that its session is alive. -/
def matchingLive (m : DomainModel) : NormalizedEvent → Bool
  | .executionBegin _ execution => !execution.state.isTerminal
  | .agentStatusChanged _ executionId _ => (m.execution executionId).any fun e => !e.state.isTerminal
  | .agentNodeUpsert _ node => node.state.any fun state => !state.isTerminal
  | .agentActivity _ _ _ => true
  | _ => false

/-- Reopens a session that an event shows to be alive. -/
def applyLiveEvidence (tx : Tx) (event : NormalizedEvent) (metadata : EventMetadata) : Tx :=
  if matchingLive tx.model event then
    match sessionOwner tx.model metadata with
    | some runId => tx.applyNativeLifecycle runId none (eventWatermark metadata)
    | none => tx
  else tx

/-- Hands the execution an event changed to the store. -/
def persistEventExecution (tx : Tx) (event : NormalizedEvent) (timestampMs : ℤ) : Tx :=
  let executionId := match event with
    | .agentStatusChanged _ executionId _ => some executionId
    | .executionBegin _ execution => some execution.executionId
    | _ => none
  match executionId.bind tx.model.execution with
  | some execution => tx.push (persistExecution execution timestampMs)
  | none => tx

/-- Whether the event is the provider lane's word for the end of a session. -/
def isLaneNativeTerminal : NormalizedEvent → Bool
  | .controllerEvent metadata kind => laneNativeTerminal metadata kind
  | _ => false

/-- The event without the task state that the end of a session does not imply. -/
def withoutLaneTaskState (event : NormalizedEvent) : NormalizedEvent :=
  if isLaneNativeTerminal event then event.mapMetadata fun metadata => { metadata with taskState := none }
  else event

/-- Applies one event, collecting its operations from the start. -/
def applyInner (core : Core) (event : NormalizedEvent) (aliasRunId : RunId) :
    Except ReducerFailure Tx := do
  let event := withoutLaneTaskState event
  let metadata := event.metadata
  let tx ← ({ core with persist := [] } : Tx).ensureEventRuns event metadata
  let tx := tx.applyControllerMetadata metadata false
  let tx ← tx.applyEventBody event metadata
  let tx ← tx.applyIdentityMetadata event metadata aliasRunId
  let tx := tx.applyEventLifecycle event metadata
  let tx := tx.applyLiveEvidence event metadata
  let tx := tx.persistEventExecution event metadata.receiptTimeMs
  let tx := if isLaneNativeTerminal event then tx else tx.updateTerminalEventSource event
  .ok (tx.push (.recordEvent event metadata.receiptTimeMs))

end HerdrTop.Tx
