import HerdrTop.Library.HashMap
import HerdrTop.Model.State

/-!
# Rows and the domain model

The rows the program keeps in memory and the maps that hold them. `runIdsByKey` is the
identity index: it leads from every key under which a run is known to the run.

Left out are the provider I/O counters and the Controller acceptor's counters, which are
atomics shared with other threads, and the deferred Activity pages; no function below
reads them.
-/

namespace HerdrTop

/-! ### Rows -/

/-- A workspace of the terminal multiplexer. -/
structure Workspace where
  workspaceId : String
  deriving DecidableEq

/-- A tab of a workspace. -/
structure Tab where
  tabId : String
  workspaceId : String
  label : Option String := none
  deriving DecidableEq

/-- A pane of a tab. -/
structure Pane where
  paneId : String
  workspaceId : String
  tabId : String
  terminalId : String
  displayName : Option String := none
  deriving DecidableEq

/-- A run being worked on in a terminal. -/
structure Execution where
  executionId : String
  paneId : String
  terminalId : String
  taskRunId : RunId
  state : ExecState
  deriving DecidableEq

/-- A task run. -/
structure TaskRun where
  runId : RunId
  key : RunKey
  displayOrdinal : DisplayOrdinal
  state : TaskState
  hasControllerTaskStateEvent : Bool
  createdAtMs : Option ℤ := none
  updatedAtMs : Option ℤ := none
  finishedAtMs : Option ℤ := none
  subject : Option String := none
  dismissedAtMs : Option ℤ := none
  deriving DecidableEq

/-- Advances the bookkeeping of a run for a change at the given time. -/
def TaskRun.touch (run : TaskRun) (timestampMs : ℤ) : TaskRun :=
  if run.state.isTerminal then
    { run with
      updatedAtMs := some timestampMs
      finishedAtMs := some (run.finishedAtMs.getD timestampMs) }
  else
    { run with updatedAtMs := some timestampMs, finishedAtMs := none, dismissedAtMs := none }

/-- What a turn ran with. -/
structure TurnAttr where
  model : Option String := none
  effort : Option String := none
  sandbox : Option String := none
  deriving DecidableEq

/-- Token counts beside the output tokens. -/
structure TokenBreakdown where
  inputTokens : Option ℕ := none
  cachedInputTokens : Option ℕ := none
  cacheWriteInputTokens : Option ℕ := none
  reasoningOutputTokens : Option ℕ := none
  totalTokens : Option ℕ := none
  contextWindow : Option ℕ := none
  deriving DecidableEq

/-- Adds a reported count to a slot. -/
def accumulateReported (slot sample : Option ℕ) : Option ℕ :=
  match sample with
  | some value => some (satAddU64 (slot.getD 0) value)
  | none => slot

/-- Adds a sample; the context window is a gauge and is replaced. -/
def TokenBreakdown.accumulate (t sample : TokenBreakdown) : TokenBreakdown where
  inputTokens := accumulateReported t.inputTokens sample.inputTokens
  cachedInputTokens := accumulateReported t.cachedInputTokens sample.cachedInputTokens
  cacheWriteInputTokens := accumulateReported t.cacheWriteInputTokens sample.cacheWriteInputTokens
  reasoningOutputTokens := accumulateReported t.reasoningOutputTokens sample.reasoningOutputTokens
  totalTokens := accumulateReported t.totalTokens sample.totalTokens
  contextWindow := sample.contextWindow.or t.contextWindow

/-- What the provider logs said about one run; never persisted. -/
structure RunTelemetry where
  outputTokens : ℕ := 0
  tokenBreakdown : TokenBreakdown := {}
  startedWallMs : ℤ
  model : Option String := none
  effort : Option String := none
  sandbox : Option String := none
  perTurn : List TurnAttr := []
  deriving DecidableEq

/-- Appends a turn unless it repeats the last one. -/
def pushTurn (perTurn : List TurnAttr) (attribution : TurnAttr) : List TurnAttr :=
  if perTurn.getLast? = some attribution then perTurn else perTurn ++ [attribution]

/-- Adds one sample. -/
def RunTelemetry.accumulate (t : RunTelemetry) (outputTokens : ℕ)
    (model effort sandbox : Option String) (retainTurn : Bool) : RunTelemetry :=
  let t := { t with outputTokens := satAddU64 t.outputTokens outputTokens }
  if model.isNone && effort.isNone && sandbox.isNone then t
  else
    { t with
      model, effort, sandbox
      perTurn := if retainTurn then pushTurn t.perTurn ⟨model, effort, sandbox⟩ else t.perTurn }

/-- The telemetry of two runs as that of one. -/
def RunTelemetry.fold (canonical absorbed : RunTelemetry) : RunTelemetry where
  outputTokens := satAddU64 canonical.outputTokens absorbed.outputTokens
  tokenBreakdown :=
    { canonical.tokenBreakdown.accumulate absorbed.tokenBreakdown with
      contextWindow :=
        canonical.tokenBreakdown.contextWindow.or absorbed.tokenBreakdown.contextWindow }
  startedWallMs := min canonical.startedWallMs absorbed.startedWallMs
  model := canonical.model.or absorbed.model
  effort := canonical.effort.or absorbed.effort
  sandbox := canonical.sandbox.or absorbed.sandbox
  perTurn := absorbed.perTurn.foldl pushTurn canonical.perTurn

/-- From where the open interval of a run's rate is counted. -/
structure RunRateCursor where
  baselineOutputTokens : ℕ
  lastObservedAtMs : ℤ
  working : Bool
  measurementEpoch : ℕ
  identityBasis : RunKey
  liveBaseline : Bool
  deriving DecidableEq

/-- An agent of a run, as the provider logs name it. -/
structure AgentNode where
  agentNodeId : String
  provider : Provider
  nativeSessionId : Option String := none
  taskRunId : RunId
  displayOrdinal : DisplayOrdinal
  parentAgentNodeId : Option String := none
  state : Option ExecState := none
  modelId : Option String := none
  lastEventKind : Option String := none
  lastToolName : Option String := none
  lastItemCount : Option ℕ := none
  lastByteCount : Option ℕ := none
  lastActivityAtMs : Option ℤ := none
  sessionFile : Option String := none
  deriving DecidableEq

/-- An observation that adds or patches an agent. -/
structure AgentNodeObservation where
  agentNodeId : String
  provider : Provider
  nativeSessionId : Option String := none
  taskRunId : RunId
  parentAgentNodeId : Option String := none
  state : Option ExecState := none
  modelId : Option String := none
  sessionFile : Option String := none
  deriving DecidableEq

/-- The parent run dispatched the child run. -/
structure ExecutionEdge where
  parentRunId : RunId
  childRunId : RunId
  deriving DecidableEq

/-- The dependent run waits for the prerequisite run. -/
structure DependencyEdge where
  prerequisiteRunId : RunId
  dependentRunId : RunId
  deriving DecidableEq

/-- The state in which a run was last shown, kept while its history is incomplete. -/
structure HistoryRunPublication where
  canonicalRunId : RunId
  taskRun : TaskRun
  state : TaskRunV6State
  aliases : List RunKey
  rateTotals : Option RunRateTotals
  executions : List Execution
  agentNodes : List AgentNode
  executionEdges : List ExecutionEdge
  dependencyEdges : List DependencyEdge
  telemetry : Option RunTelemetry
  runKind : Option String
  rateCursor : Option RunRateCursor
  deriving DecidableEq

/-- A before-image that stands for the absorbed run as one that stands for the survivor. -/
def HistoryRunPublication.repoint (publication : HistoryRunPublication) (survivor absorbed : RunId) :
    HistoryRunPublication :=
  if publication.canonicalRunId = absorbed then { publication with canonicalRunId := survivor }
  else publication

/-- Counters kept by the reducer. -/
structure ControllerDiagnostics where
  bindingConflicts : ℕ := 0
  terminalBlockedProgressNoops : ℕ := 0
  terminalForwardReferenceCreations : ℕ := 0
  unknownLaneTerminalDrops : ℕ := 0
  danglingAnnouncementComponents : ℕ := 0
  ingestSequenceExhaustions : ℕ := 0
  providerParentConflicts : ℕ := 0
  providerIdentityDisagreements : ℕ := 0
  rateTotalSaturations : ℕ := 0
  deriving DecidableEq

namespace ControllerDiagnostics

def recordBindingConflict (d : ControllerDiagnostics) : ControllerDiagnostics :=
  { d with bindingConflicts := satAddU64 d.bindingConflicts 1 }

def recordTerminalBlockedProgressNoops (d : ControllerDiagnostics) (count : ℕ) :
    ControllerDiagnostics :=
  { d with terminalBlockedProgressNoops := satAddU64 d.terminalBlockedProgressNoops count }

def recordTerminalForwardReferenceCreations (d : ControllerDiagnostics) (count : ℕ) :
    ControllerDiagnostics :=
  { d with terminalForwardReferenceCreations := satAddU64 d.terminalForwardReferenceCreations count }

def recordUnknownLaneTerminalDrops (d : ControllerDiagnostics) (count : ℕ) :
    ControllerDiagnostics :=
  { d with unknownLaneTerminalDrops := satAddU64 d.unknownLaneTerminalDrops count }

def setDanglingAnnouncementComponents (d : ControllerDiagnostics) (count : ℕ) :
    ControllerDiagnostics :=
  { d with danglingAnnouncementComponents := count }

def recordIngestSequenceExhaustion (d : ControllerDiagnostics) : ControllerDiagnostics :=
  { d with ingestSequenceExhaustions := satAddU64 d.ingestSequenceExhaustions 1 }

def recordProviderParentConflict (d : ControllerDiagnostics) : ControllerDiagnostics :=
  { d with providerParentConflicts := satAddU64 d.providerParentConflicts 1 }

def recordProviderIdentityDisagreement (d : ControllerDiagnostics) : ControllerDiagnostics :=
  { d with providerIdentityDisagreements := satAddU64 d.providerIdentityDisagreements 1 }

def recordRateTotalSaturation (d : ControllerDiagnostics) : ControllerDiagnostics :=
  { d with rateTotalSaturations := satAddU64 d.rateTotalSaturations 1 }

end ControllerDiagnostics

/-- The kinds of topology rows that have a display ordinal. -/
inductive TopologyKind
  | workspace
  | tab
  | pane
  deriving DecidableEq

/-! ### The domain model -/

/-- Everything the program knows. -/
structure DomainModel where
  workspaces : HashMap String Workspace := ∅
  tabs : HashMap String Tab := ∅
  panes : HashMap String Pane := ∅
  paneAgentStatuses : HashMap String PaneAgentStatus := ∅
  topologyOrdinals : HashMap (TopologyKind × String) DisplayOrdinal := ∅
  taskRuns : HashMap RunId TaskRun := ∅
  runIdsByKey : HashMap RunKey RunId := ∅
  v6States : HashMap RunId TaskRunV6State := ∅
  rateTotals : HashMap RunId RunRateTotals := ∅
  rateCursors : HashMap RunId RunRateCursor := ∅
  telemetry : HashMap RunId RunTelemetry := ∅
  runKinds : HashMap RunId String := ∅
  executions : HashMap String Execution := ∅
  agentNodes : HashMap String AgentNode := ∅
  executionEdges : HashSet ExecutionEdge := (∅ : HashMap ExecutionEdge Unit)
  dependencyEdges : HashSet DependencyEdge := (∅ : HashMap DependencyEdge Unit)
  historyRunPublications : HashMap RunId HistoryRunPublication := ∅
  diagnostics : ControllerDiagnostics := {}
  deriving DecidableEq

namespace DomainModel

/-! ### Topology -/

def insertWorkspace (m : DomainModel) (workspace : Workspace) : DomainModel :=
  { m with workspaces := m.workspaces.insert workspace.workspaceId workspace }

def insertTab (m : DomainModel) (tab : Tab) : DomainModel :=
  { m with tabs := m.tabs.insert tab.tabId tab }

def insertPane (m : DomainModel) (pane : Pane) : DomainModel :=
  { m with panes := m.panes.insert pane.paneId pane }

def removeWorkspace (m : DomainModel) (workspaceId : String) : DomainModel :=
  { m with workspaces := m.workspaces.remove workspaceId }

def removeTab (m : DomainModel) (tabId : String) : DomainModel :=
  { m with tabs := m.tabs.remove tabId }

def removePaneAgentStatus (m : DomainModel) (paneId : String) : DomainModel :=
  { m with paneAgentStatuses := m.paneAgentStatuses.remove paneId }

def setPaneAgentStatus (m : DomainModel) (paneId : String) (status : PaneAgentStatus) :
    DomainModel :=
  { m with paneAgentStatuses := m.paneAgentStatuses.insert paneId status }

/-- Removes a pane together with its agent status. -/
def removePane (m : DomainModel) (paneId : String) : DomainModel :=
  { m.removePaneAgentStatus paneId with panes := m.panes.remove paneId }

def topologyOrdinal (m : DomainModel) (kind : TopologyKind) (id : String) : Option DisplayOrdinal :=
  m.topologyOrdinals.get (kind, id)

def setTopologyOrdinal (m : DomainModel) (kind : TopologyKind) (id : String)
    (ordinal : DisplayOrdinal) : DomainModel :=
  { m with topologyOrdinals := m.topologyOrdinals.insert (kind, id) ordinal }

def removeTopologyOrdinal (m : DomainModel) (kind : TopologyKind) (id : String) : DomainModel :=
  { m with topologyOrdinals := m.topologyOrdinals.remove (kind, id) }

/-! ### Task runs and the identity index -/

def taskRun (m : DomainModel) (runId : RunId) : Option TaskRun := m.taskRuns.get runId

/-- The run a key leads to. -/
def taskRunByKey (m : DomainModel) (key : RunKey) : Option TaskRun :=
  (m.runIdsByKey.get key).bind m.taskRuns.get

/-- The index without the entry of a run's former key. -/
def withoutFormerKey (m : DomainModel) (runId : RunId) : HashMap RunKey RunId :=
  match m.taskRuns.get runId with
  | some previous =>
    if m.runIdsByKey.get previous.key = some runId then m.runIdsByKey.remove previous.key
    else m.runIdsByKey
  | none => m.runIdsByKey

/-- Stores a run and indexes its key; the key it had before is no longer indexed. -/
def insertTaskRun (m : DomainModel) (taskRun : TaskRun) : DomainModel :=
  { m with
    taskRuns := m.taskRuns.insert taskRun.runId taskRun
    v6States := m.v6States.orInsert taskRun.runId {}
    runIdsByKey := (m.withoutFormerKey taskRun.runId).insert taskRun.key taskRun.runId }

/-- Adds a key that leads to a run beside the run's own. -/
def insertTaskRunAlias (m : DomainModel) (key : RunKey) (canonicalRunId : RunId) : DomainModel :=
  { m with runIdsByKey := m.runIdsByKey.insert key canonicalRunId }

/-- Restores a run without making its key addressable. -/
def insertHistoricalTaskRun (m : DomainModel) (taskRun : TaskRun) : DomainModel :=
  { m with
    v6States := m.v6States.orInsert taskRun.runId {}
    taskRuns := m.taskRuns.insert taskRun.runId taskRun }

/-- Drops the row of an absorbed run; the index is rewritten by the caller. -/
def removeTaskRunRecord (m : DomainModel) (runId : RunId) : DomainModel :=
  { m with
    v6States := m.v6States.remove runId
    rateTotals := m.rateTotals.remove runId
    rateCursors := m.rateCursors.remove runId
    taskRuns := m.taskRuns.remove runId }

def v6State (m : DomainModel) (runId : RunId) : Option TaskRunV6State := m.v6States.get runId

def setV6State (m : DomainModel) (runId : RunId) (state : TaskRunV6State) : DomainModel :=
  { m with v6States := m.v6States.insert runId state }

/-! ### Rates, telemetry and kinds -/

/-- Counts a saturation when there was one. -/
def noteSaturation (m : DomainModel) (saturated : Bool) : ControllerDiagnostics :=
  if saturated then m.diagnostics.recordRateTotalSaturation else m.diagnostics

def setRunRateTotals (m : DomainModel) (runId : RunId) (totals : RunRateTotals) : DomainModel :=
  let (totals, saturated) := totals.clamped
  { m with
    diagnostics := m.noteSaturation saturated
    rateTotals := m.rateTotals.insert runId totals }

def accumulateRunRateTotals (m : DomainModel) (runId : RunId) (delta : RunRateTotals) :
    DomainModel :=
  let (totals, saturated) := ((m.rateTotals.get runId).getD {}).saturatingAdd delta
  { m with
    diagnostics := m.noteSaturation saturated
    rateTotals := m.rateTotals.insert runId totals }

def setRunRateCursor (m : DomainModel) (runId : RunId) (cursor : RunRateCursor) : DomainModel :=
  { m with rateCursors := m.rateCursors.insert runId cursor }

def removeRunRateCursor (m : DomainModel) (runId : RunId) : DomainModel :=
  { m with rateCursors := m.rateCursors.remove runId }

def clearRunRateCursors (m : DomainModel) : DomainModel := { m with rateCursors := ∅ }

/-- The telemetry of a run, created when there is none, moved back to an earlier start. -/
def telemetryEntry (m : DomainModel) (runId : RunId) (atMs : ℤ) : RunTelemetry :=
  let telemetry := (m.telemetry.get runId).getD { startedWallMs := atMs }
  { telemetry with startedWallMs := min telemetry.startedWallMs atMs }

def setTelemetry (m : DomainModel) (runId : RunId) (telemetry : RunTelemetry) : DomainModel :=
  { m with telemetry := m.telemetry.insert runId telemetry }

/-- Records the first kind seen for a run. -/
def setRunKind (m : DomainModel) (runId : RunId) (kind : String) : DomainModel :=
  { m with runKinds := if kind = "" then m.runKinds else m.runKinds.orInsert runId kind }

/-! ### Folding an absorbed run into its survivor -/

/-- The state of two runs as that of one: ready when one was, the later lifecycle. -/
def foldV6 (survivor absorbed : TaskRunV6State) : TaskRunV6State :=
  let later := match survivor.lifecycleWatermark, absorbed.lifecycleWatermark with
    | none, some _ => true
    | some s, some a => decide (s < a)
    | _, none => false
  { nativeSessionEnd := if later then absorbed.nativeSessionEnd else survivor.nativeSessionEnd
    lifecycleWatermark :=
      if later then absorbed.lifecycleWatermark else survivor.lifecycleWatermark
    historyReady := survivor.historyReady || absorbed.historyReady
    latestProviderAtMs := match survivor.latestProviderAtMs, absorbed.latestProviderAtMs with
      | some left, some right => some (max left right)
      | some left, none => some left
      | none, right => right }

def foldTaskRunV6State (m : DomainModel) (survivor absorbed : RunId) : DomainModel :=
  let absorbedState := (m.v6States.get absorbed).getD {}
  let survivorState := ((m.v6States.remove absorbed).get survivor).getD {}
  { m with
    v6States := (m.v6States.remove absorbed).insert survivor (foldV6 survivorState absorbedState)
    historyRunPublications := m.historyRunPublications.mapValues fun _ publication =>
      publication.repoint survivor absorbed }

def foldRunRateTotals (m : DomainModel) (survivor absorbed : RunId) : DomainModel :=
  match m.rateTotals.get absorbed with
  | none => m
  | some absorbedTotals =>
    { m with rateTotals := m.rateTotals.remove absorbed }.accumulateRunRateTotals survivor
      absorbedTotals

def foldTelemetry (m : DomainModel) (survivor absorbed : RunId) : DomainModel :=
  { m with
    telemetry := match m.telemetry.get absorbed with
      | none => m.telemetry
      | some absorbedTelemetry =>
        let rest := m.telemetry.remove absorbed
        match rest.get survivor with
        | none => rest.insert survivor absorbedTelemetry
        | some canonical => rest.insert survivor (canonical.fold absorbedTelemetry) }

def foldRunKind (m : DomainModel) (survivor absorbed : RunId) : DomainModel :=
  { m with
    runKinds := match m.runKinds.get absorbed with
      | none => m.runKinds
      | some absorbedKind => (m.runKinds.remove absorbed).orInsert survivor absorbedKind }

/-! ### Executions, agents and edges -/

def execution (m : DomainModel) (executionId : String) : Option Execution :=
  m.executions.get executionId

def insertExecution (m : DomainModel) (execution : Execution) : DomainModel :=
  { m with executions := m.executions.insert execution.executionId execution }

def agentNode (m : DomainModel) (agentNodeId : String) : Option AgentNode :=
  m.agentNodes.get agentNodeId

def insertAgentNode (m : DomainModel) (agentNode : AgentNode) : DomainModel :=
  { m with agentNodes := m.agentNodes.insert agentNode.agentNodeId agentNode }

def insertExecutionEdge (m : DomainModel) (edge : ExecutionEdge) : DomainModel :=
  { m with executionEdges := HashSet.insert m.executionEdges edge }

def insertDependencyEdge (m : DomainModel) (edge : DependencyEdge) : DomainModel :=
  { m with dependencyEdges := HashSet.insert m.dependencyEdges edge }

def updateDiagnostics (m : DomainModel) (f : ControllerDiagnostics → ControllerDiagnostics) :
    DomainModel :=
  { m with diagnostics := f m.diagnostics }

/-- The end of a run as lifecycle consumers see it. -/
def effectiveLifecycleEndMs (m : DomainModel) (run : TaskRun) : Option ℤ :=
  run.finishedAtMs.or (((m.v6State run.runId).bind (·.nativeSessionEnd)).map (·.atMs))

end DomainModel

/-! ### What the operations do -/

@[simp] theorem TaskRun.touch_runId (run : TaskRun) (t : ℤ) : (run.touch t).runId = run.runId := by
  unfold TaskRun.touch
  split <;> rfl

@[simp] theorem TaskRun.touch_key (run : TaskRun) (t : ℤ) : (run.touch t).key = run.key := by
  unfold TaskRun.touch
  split <;> rfl

@[simp] theorem TaskRun.touch_state (run : TaskRun) (t : ℤ) : (run.touch t).state = run.state := by
  unfold TaskRun.touch
  split <;> rfl

@[simp] theorem TaskRun.touch_displayOrdinal (run : TaskRun) (t : ℤ) :
    (run.touch t).displayOrdinal = run.displayOrdinal := by
  unfold TaskRun.touch
  split <;> rfl

@[simp] theorem TaskRun.touch_createdAtMs (run : TaskRun) (t : ℤ) :
    (run.touch t).createdAtMs = run.createdAtMs := by
  unfold TaskRun.touch
  split <;> rfl

@[simp] theorem TaskRun.touch_updatedAtMs (run : TaskRun) (t : ℤ) :
    (run.touch t).updatedAtMs = some t := by
  unfold TaskRun.touch
  split <;> rfl

@[simp] theorem TaskRun.touch_finishedAtMs (run : TaskRun) (t : ℤ) : (run.touch t).finishedAtMs =
    if run.state.isTerminal then some (run.finishedAtMs.getD t) else none := by
  unfold TaskRun.touch
  split <;> rfl

@[simp] theorem TaskRun.touch_hasControllerTaskStateEvent (run : TaskRun) (t : ℤ) :
    (run.touch t).hasControllerTaskStateEvent = run.hasControllerTaskStateEvent := by
  unfold TaskRun.touch
  split <;> rfl

namespace DomainModel

theorem get_withoutFormerKey (m : DomainModel) (runId : RunId) (key : RunKey) :
    (m.withoutFormerKey runId).get key =
      if m.runIdsByKey.get key = some runId ∧ (m.taskRuns.get runId).map (·.key) = some key then none
      else m.runIdsByKey.get key := by
  unfold withoutFormerKey
  cases h : m.taskRuns.get runId with
  | none => simp
  | some previous =>
    simp only [Option.map_some, Option.some.injEq]
    by_cases hk : m.runIdsByKey.get previous.key = some runId
    · rw [if_pos hk, HashMap.get_remove]
      by_cases e : key = previous.key
      · subst e
        simp [hk]
      · rw [if_neg e, if_neg fun h => e h.2.symm]
    · rw [if_neg hk, if_neg]
      rintro ⟨h1, rfl⟩
      exact hk h1

end DomainModel

end HerdrTop
