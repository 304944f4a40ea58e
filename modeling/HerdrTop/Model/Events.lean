import HerdrTop.Model.Entities

/-!
# Events and topology snapshots

What the collector hands to the reducer: normalized events with their metadata, the
Controller events, and the snapshots of the physical topology.
-/

namespace HerdrTop

/-- Whether a source of evidence was available. -/
structure SourceCoverage where
  source : String
  available : Bool
  detail : Option String := none
  deriving DecidableEq

/-- The allowlisted numbers and names of a provider record. -/
structure MinimalProviderMetadata where
  agentId : Option String := none
  parentAgentId : Option String := none
  modelId : Option String := none
  eventKind : Option String := none
  toolName : Option String := none
  itemCount : Option ℕ := none
  byteCount : Option ℕ := none
  deriving DecidableEq

/-- What accompanies every event. -/
structure EventMetadata where
  eventId : String
  /-- The time at the source. -/
  timestampMs : ℤ
  /-- The time at which the collector received the event. -/
  receiptTimeMs : ℤ
  source : String := ""
  sourceEventType : String := ""
  herdrSession : String := ""
  workspaceId : Option String := none
  tabId : Option String := none
  paneId : Option String := none
  terminalId : Option String := none
  provider : Option Provider := none
  nativeSessionId : Option String := none
  taskRunId : Option RunId := none
  agentNodeId : Option String := none
  taskState : Option TaskState := none
  executionParent : Option ExecutionEdge := none
  dependency : Option DependencyEdge := none
  sourceCoverage : List SourceCoverage := []
  providerMetadata : Option MinimalProviderMetadata := none
  label : Option String := none
  reason : Option String := none
  /-- The progress of a Controller run in basis points. -/
  progress : Option ℕ := none
  /-- The ingest sequence the reducer gave a Controller event. -/
  ingestSeq : Option ℕ := none
  deriving DecidableEq

/-- The kinds of Controller events. -/
inductive ControllerEventKind
  | dispatch (parentTaskRunId : String)
  | taskStarted
  | dependsOn (dependsOnId : String)
  | blocked
  | progress
  | complete
  | failed
  | cancelled
  | sessionEnded
  | dismiss
  deriving DecidableEq

/-- A Controller event before its names are resolved to runs. -/
structure ControllerEvent where
  schemaVersion : ℕ
  taskRunId : String
  metadata : EventMetadata
  event : ControllerEventKind
  deriving DecidableEq

/-- A row of the physical topology. -/
inductive TopologyEntity
  | workspace (workspace : Workspace)
  | tab (tab : Tab)
  | pane (pane : Pane)
  deriving DecidableEq

/-- The identity of a row of the physical topology. -/
inductive TopologyEntityId
  | workspace (workspaceId : String)
  | tab (tabId : String)
  | pane (paneId : String)
  deriving DecidableEq

/-- Whether a topology row states the absence of a name or is silent about it. -/
inductive TopologyAuthority
  | partially
  | authoritative
  deriving DecidableEq

/-- An event in the form the reducer takes. -/
inductive NormalizedEvent
  | controllerEvent (metadata : EventMetadata) (event : ControllerEventKind)
  | topologyUpsert (metadata : EventMetadata) (authority : TopologyAuthority)
      (entity : TopologyEntity)
  | topologyClosure (metadata : EventMetadata) (entity : TopologyEntityId)
  | agentStatusChanged (metadata : EventMetadata) (executionId : String) (state : ExecState)
  | agentNodeUpsert (metadata : EventMetadata) (node : AgentNodeObservation)
  | agentActivity (metadata : EventMetadata) (agentNodeId : String)
      (activity : MinimalProviderMetadata)
  | executionBegin (metadata : EventMetadata) (execution : Execution)
  | executionEnd (metadata : EventMetadata) (executionId : String)
  deriving DecidableEq

/-- Why observation was interrupted. -/
inductive GapKind
  | startup
  | reconnect
  | socketReplacement
  | persistenceOutage
  deriving DecidableEq

/-- How a session reference names the session. -/
inductive AgentSessionReferenceKind
  | id
  | path
  deriving DecidableEq

/-- The agent of a pane. -/
structure SnapshotAgent where
  agentName : String
  status : PaneAgentStatus
  deriving DecidableEq

/-- The session an agent says it runs. -/
structure AgentSessionReference where
  source : String
  agent : String
  kind : AgentSessionReferenceKind
  value : String
  deriving DecidableEq

/-- A pane as a topology snapshot shows it. -/
structure PaneSnapshot where
  paneId : String
  workspaceId : String
  tabId : String
  terminalId : String
  displayName : Option String := none
  agent : Option SnapshotAgent := none
  agentSession : Option AgentSessionReference := none
  deriving DecidableEq

/-- The whole physical topology at one moment. -/
structure TopologySnapshot where
  workspaces : List Workspace := []
  tabs : List Tab := []
  panes : List PaneSnapshot := []
  deriving DecidableEq

end HerdrTop
