import HerdrTop.Reducer.Observe

/-!
# Reconciliation with a topology snapshot

A complete snapshot of the physical topology replaces the topology rows. What was running
before the gap is ended; the snapshot's agents are matched with known runs or get new ones.
-/

namespace HerdrTop

/-- The identities drawn for one pane of a snapshot: for a run and for the names of its rows. -/
structure PaneDraw where
  run : RunId
  token : RunId

/-- What a snapshot says about the session of a pane's agent. -/
structure SnapshotSession where
  provider : Option Provider
  sid : Option String
  path : Option String

/-- The text of a session reference of one kind. -/
def sessionReference (reference : Option AgentSessionReference) (kind : AgentSessionReferenceKind) :
    Option String :=
  reference.bind fun reference =>
    if reference.kind = kind ∧ reference.value ≠ "" then some reference.value else none

def PaneSnapshot.session (pane : PaneSnapshot) (agent : SnapshotAgent) : SnapshotSession where
  provider := snapshotProvider agent.agentName (pane.agentSession.map (·.agent))
  sid := sessionReference pane.agentSession .id
  path := sessionReference pane.agentSession .path

/-- The run of a session: by its key, else by agents that agree, of runs that are not
provisional. -/
def runForNativeSession (m : DomainModel) (provider : Provider) (sid : String) : Option RunId :=
  match m.taskRunByKey (.native provider sid) with
  | some run => some run.runId
  | none =>
    let runs := (m.agentNodes.values.filter fun node =>
      node.provider = provider && node.nativeSessionId = some sid &&
        (m.taskRun node.taskRunId).any fun run => !run.key.isProvisional).map (·.taskRunId)
    match runs with
    | [] => none
    | first :: rest => if rest.all (· = first) then some first else none

/-- The known run of a session. -/
def snapshotOwner (m : DomainModel) (session : SnapshotSession) : Option RunId :=
  match session.provider, session.sid, session.path with
  | some provider, some sid, _ => runForNativeSession m provider sid
  | some provider, none, some path => (m.taskRunByKey (.nativePath provider path)).map (·.runId)
  | _, _, _ => none

namespace Tx

/-! ### Topology rows -/

/-- The ordinals that the rows of a snapshot have already. -/
def retainedOrdinals (m : DomainModel) (kind : TopologyKind) (ids : List String) :
    List (String × DisplayOrdinal) :=
  ids.filterMap fun id => (m.topologyOrdinal kind id).map fun ordinal => (id, ordinal)

/-- Gives rows their ordinals back. -/
def restoreOrdinals (tx : Tx) (kind : TopologyKind) (ordinals : List (String × DisplayOrdinal)) : Tx :=
  ordinals.foldl (fun tx entry => tx.withModel (tx.model.setTopologyOrdinal kind entry.1 entry.2)) tx

def storeSnapshotTab (tx : Tx) (tab : Tab) : Except ReducerFailure Tx :=
  tx.storeTab { tab with label := nextName .authoritative tab.label none } true

def storeSnapshotPane (tx : Tx) (pane : PaneSnapshot) : Except ReducerFailure Tx :=
  tx.storePane
    { paneId := pane.paneId
      workspaceId := pane.workspaceId
      tabId := pane.tabId
      terminalId := pane.terminalId
      displayName := nextName .authoritative pane.displayName none } true

/-- Removes every topology row; `closeMs` reads the clock when a pane is closed. -/
def clearTopology (tx : Tx) (closeMs : String → ℤ) : Tx :=
  let workspaceIds := tx.model.workspaces.values.map (·.workspaceId)
  let tabIds := tx.model.tabs.values.map (·.tabId)
  let paneIds := tx.model.panes.values.map (·.paneId)
  let tx := paneIds.foldl (fun tx paneId => tx.closePane paneId (closeMs paneId)) tx
  let tx := tabIds.foldl dropTab tx
  workspaceIds.foldl dropWorkspace tx

/-- Replaces the topology rows by those of a snapshot. -/
def replaceTopology (tx : Tx) (topology : TopologySnapshot) (closeMs : String → ℤ) :
    Except ReducerFailure Tx := do
  let workspaces := retainedOrdinals tx.model .workspace (topology.workspaces.map (·.workspaceId))
  let tabs := retainedOrdinals tx.model .tab (topology.tabs.map (·.tabId))
  let panes := retainedOrdinals tx.model .pane (topology.panes.map (·.paneId))
  let tx := tx.clearTopology closeMs
  let tx := ((tx.restoreOrdinals .workspace workspaces).restoreOrdinals .tab tabs).restoreOrdinals
    .pane panes
  let tx ← topology.workspaces.foldlM storeWorkspace tx
  let tx ← topology.tabs.foldlM storeSnapshotTab tx
  topology.panes.foldlM storeSnapshotPane tx

/-- The agent statuses of the panes that exist. -/
def replacePaneAgentStatuses (tx : Tx) (panes : List PaneSnapshot) : Tx :=
  let statuses := (panes.filter fun pane => (tx.model.panes.get pane.paneId).isSome).filterMap
    fun pane => pane.agent.map fun agent => (pane.paneId, agent.status)
  tx.withModel { tx.model with paneAgentStatuses := HashMap.ofList statuses }

/-! ### Agents of panes -/

/-- Creates the run of a session that nobody has. -/
def insertSnapshotRun (tx : Tx) (session : SnapshotSession) (terminalId : String) (runId : RunId)
    (timestampMs : ℤ) : Except ReducerFailure Tx := do
  let (ordinal, tx) ← tx.allocateOrdinal
  let key := match session.provider, session.sid, session.path with
    | some provider, some sid, _ => .native provider sid
    | some provider, none, some path => .nativePath provider path
    | _, _, _ => provisionalKey terminalId timestampMs ordinal
  let taskRun := newTaskRun runId key ordinal .running false
  .ok (tx.storeRun (stampNewTaskRun taskRun timestampMs) timestampMs)

/-- The run of a session, created when nobody has it. -/
def snapshotRun (tx : Tx) (session : SnapshotSession) (terminalId : String) (fresh : RunId)
    (timestampMs : ℤ) : Except ReducerFailure (RunId × Tx) :=
  match snapshotOwner tx.model session with
  | some runId => .ok (runId, tx)
  | none => do
    let tx ← tx.insertSnapshotRun session terminalId fresh timestampMs
    .ok (fresh, tx)

/-- Starts, or continues, the execution of a run in a pane. -/
def beginSnapshotExecution (tx : Tx) (pane : PaneSnapshot) (agent : SnapshotAgent) (runId : RunId)
    (token : RunId) (resolvedOwner : Bool) (nowMs : ℤ) : Tx :=
  let existingId := leastText ((tx.model.executions.values.filter fun execution =>
    execution.paneId = pane.paneId && execution.terminalId = pane.terminalId &&
      execution.taskRunId = runId).map (·.executionId))
  let execution : Execution :=
    { executionId := existingId.getD s!"gap-execution-{token.text}"
      paneId := pane.paneId
      terminalId := pane.terminalId
      taskRunId := runId
      state := agent.status.executionState }
  let tx := (tx.withModel (tx.model.insertExecution execution)).push
    (persistExecution execution nowMs)
  if execution.state.isTerminal then tx
  else
    let tx := tx.activateForLiveExecution runId nowMs
    if resolvedOwner then
      tx.reopenNativeLifecycleForLiveExecution runId execution.executionId nowMs
    else tx

/-- The agent of a run that a snapshot means. -/
def snapshotAgentNode (m : DomainModel) (runId : RunId) (provider : Provider) (sid : Option String) :
    Option AgentNode :=
  let nodes := m.agentNodes.values.filter fun node =>
    node.taskRunId = runId && node.provider = provider
  let least := fun nodes : List AgentNode =>
    (leastText (nodes.map (·.agentNodeId))).bind fun id => nodes.find? (·.agentNodeId = id)
  match sid with
  | some _ => least (nodes.filter fun node => node.nativeSessionId = sid)
  | none => (least (nodes.filter fun node => node.nativeSessionId.isSome)).or (least nodes)

/-- Makes sure that a run has an agent of a provider. -/
def ensureSnapshotAgent (tx : Tx) (runId : RunId) (session : SnapshotSession) (token : RunId) :
    Except ReducerFailure Tx :=
  match session.provider with
  | none => .ok tx
  | some provider =>
    match snapshotAgentNode tx.model runId provider session.sid with
    | some node =>
      .ok (tx.storeAgentNode node)
    | none => do
      let (ordinal, tx) ← tx.allocateOrdinal
      .ok (tx.storeAgentNode
        (newAgentNode s!"gap-agent-{token.text}" provider session.sid runId ordinal))

/-- Takes over the agent of a pane. -/
def reconcilePane (nowMs : ℤ) (tx : Tx) (entry : PaneSnapshot × PaneDraw) : Except ReducerFailure Tx :=
  let pane := entry.1
  match pane.agent with
  | none => .ok tx
  | some agent => do
    let session := pane.session agent
    let resolvedOwner := session.provider.isSome && session.sid.isSome &&
      (snapshotOwner tx.model session).isSome
    let (runId, tx) ← tx.snapshotRun session pane.terminalId entry.2.run nowMs
    let tx := tx.beginSnapshotExecution pane agent runId entry.2.token resolvedOwner nowMs
    tx.ensureSnapshotAgent runId session entry.2.token

/-! ### The whole snapshot -/

/-- Ends an execution that was going on before the gap. -/
def endPreGapExecution (nowMs : ℤ) (tx : Tx) (execution : Execution) : Tx :=
  if execution.state.isTerminal then tx
  else
    let execution := { execution with state := .ended }
    (tx.withModel (tx.model.insertExecution execution)).push (persistExecution execution nowMs)

/-- Ends a run, or its session, that did not come back after the gap. -/
def closePreGapRun (nowMs : ℤ) (tx : Tx) (runId : RunId) : Tx :=
  (tx.closeRunWithoutLiveExecution runId nowMs).closeHistoryReadyRunWithoutLiveExecution runId nowMs

/-- Replaces the physical topology; `draws` are the identities for the panes by position. -/
def reconcileSnapshotInner (tx : Tx) (topology : TopologySnapshot) (draws : ℕ → PaneDraw) (nowMs : ℤ)
    (closeMs : String → ℤ) : Except ReducerFailure Tx := do
  let preGapExecutions := tx.model.executions.values.insertionSort
    fun left right => left.executionId ≤ right.executionId
  let preGapRuns := ((preGapExecutions.map (·.taskRunId)).insertionSort (· ≤ ·)).dedup
  let tx := preGapExecutions.foldl (endPreGapExecution nowMs) tx
  let tx ← tx.replaceTopology topology closeMs
  let tx := tx.replacePaneAgentStatuses topology.panes
  let tx ← (topology.panes.zipIdx.map fun entry => (entry.1, draws entry.2)).foldlM
    (reconcilePane nowMs) tx
  .ok (preGapRuns.foldl (closePreGapRun nowMs) tx)

end Tx

/-- Atomically replaces the physical topology; `epochMs` and `publishMs` are later clock readings. -/
def Reducer.reconcileSnapshot (r : Reducer) (topology : TopologySnapshot) (draws : ℕ → PaneDraw)
    (nowMs : ℤ) (closeMs : String → ℤ) (epochMs publishMs : ℤ) :
    Reducer × Except ReducerError PersistBatch :=
  match r.begin.reconcileSnapshotInner topology draws nowMs closeMs with
  | .error ⟨error, core⟩ =>
    -- who spoke for which run is not put back
    ({ r.withCore core with
        model := r.model
        nextOrdinal := r.nextOrdinal }, .error error)
  | .ok tx =>
    let persist := normalizePersistBatchLineage tx.persist
    let r := (r.withCore tx.toCore).recomputeDanglingAnnouncementComponents
    let r := (r.applyOperatorSubmission persist).applyPendingTelemetryForKnownRuns
    ((r.beginRateEpoch.activateRateEpoch epochMs).publish publishMs, .ok persist)

end HerdrTop
