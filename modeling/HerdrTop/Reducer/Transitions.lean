import HerdrTop.Identity.Binding

/-!
# State transitions

The pure rules of the reducer: what a Controller event makes of a task state, what an
observation makes of an execution state, and the helpers that read events, batches and keys.
-/

namespace HerdrTop

/-- The source name of the provider lane. -/
def sourceLogLane : String := "provider-log"

/-- How long an execution may be stale before it counts as ended. -/
def staleGraceMs : ℤ := 30000

/-- How long a run known from hooks only stays visible. -/
def hookOnlyStaleVisibilityMs : ℤ := 24 * 60 * 60 * 1000

/-! ### Texts -/

/-- `char::escape_default` of a control character. -/
def escapeControl (c : Char) : List Char :=
  if c = '\t' then ['\\', 't']
  else if c = '\r' then ['\\', 'r']
  else if c = '\n' then ['\\', 'n']
  else ['\\', 'u', Char.ofNat 123] ++ Nat.toDigits 16 c.toNat ++ [Char.ofNat 125]

/-- Appends characters, control characters escaped, as long as they fit in 256 bytes. -/
def sanitizeChars : List Char → List Char → ℕ → List Char
  | [], sanitized, _ => sanitized
  | c :: rest, sanitized, bytes =>
    let piece := if isControl c then escapeControl c else [c]
    let size := (piece.map Char.utf8Size).sum
    if 256 < bytes + size then sanitized else sanitizeChars rest (sanitized ++ piece) (bytes + size)

/-- Escapes control characters and cuts the text off at 256 bytes. -/
def sanitizeControllerText (value : String) : String :=
  String.ofList (sanitizeChars value.toList [] 0)

/-! ### Controller states -/

/-- The kinds of Controller events as their names tell them apart. -/
inductive LegacyControllerEventKind
  | started
  | blocked
  | progress
  | complete
  | failed
  | cancelled
  | other
  deriving DecidableEq

def controllerEventKind (sourceEventType : String) : LegacyControllerEventKind :=
  if sourceEventType = "task_started" then .started
  else if sourceEventType = "blocked" then .blocked
  else if sourceEventType = "progress" then .progress
  else if sourceEventType = "complete" then .complete
  else if sourceEventType = "failed" then .failed
  else if sourceEventType = "cancelled" then .cancelled
  else .other

def controllerKindName : ControllerEventKind → String
  | .dispatch _ => "dispatch"
  | .taskStarted => "task_started"
  | .dependsOn _ => "depends_on"
  | .blocked => "blocked"
  | .progress => "progress"
  | .complete => "complete"
  | .failed => "failed"
  | .cancelled => "cancelled"
  | .sessionEnded => "session_ended"
  | .dismiss => "dismiss"

def controllerTargetState : ControllerEventKind → Option TaskState
  | .dispatch _ | .dependsOn _ | .sessionEnded | .dismiss => none
  | .taskStarted => some .running
  | .blocked => some .blocked
  | .progress => some .queued
  | .complete => some .completed
  | .failed => some .failed
  | .cancelled => some .cancelled

/-- Whether the event says how the run ended. -/
def ControllerEventKind.isTerminal : ControllerEventKind → Bool
  | .complete | .failed | .cancelled => true
  | _ => false

/-- The state in which an event creates a run. -/
def initialControllerState (sourceEventType : String) (supplied : TaskState) : TaskState :=
  match controllerEventKind sourceEventType with
  | .started => .running
  | .blocked => .blocked
  | .progress => .queued
  | .complete => .completed
  | .failed => .failed
  | .cancelled => .cancelled
  | .other => supplied

/-- A state that says how the run ended. -/
def TaskState.isSemanticTerminal : TaskState → Bool
  | .completed | .failed | .cancelled => true
  | _ => false

/-- The first semantic end of a run stands. -/
def terminalTransition (current target : TaskState) : TaskState :=
  if current.isSemanticTerminal && current != target then current else target

/-- What an event makes of the state of a run. -/
def controllerTaskTransition (current : TaskState) (sourceEventType : String) (supplied : TaskState)
    (allowLaneReopen : Bool) : TaskState :=
  match controllerEventKind sourceEventType with
  | .started =>
    match current with
    | .queued | .blocked | .endedUnknown => .running
    | .completed | .cancelled => if allowLaneReopen then .running else current
    | _ => current
  | .blocked =>
    match current with
    | .queued | .running | .endedUnknown => .blocked
    | _ => current
  | .progress => if current = .endedUnknown then .running else current
  | .complete => terminalTransition current .completed
  | .failed => terminalTransition current .failed
  | .cancelled => terminalTransition current .cancelled
  | .other =>
    match supplied with
    | .completed | .failed | .cancelled => terminalTransition current supplied
    | .running =>
      match current with
      | .queued | .blocked | .endedUnknown => .running
      | _ => current
    | .blocked =>
      match current with
      | .queued | .running | .endedUnknown => .blocked
      | _ => current
    | .queued => if current = .endedUnknown then .running else current
    | .endedUnknown => current

/-! ### Execution states -/

/-- What an observation makes of the state of an execution. -/
def nextExecutionState (current observed : ExecState) (metadata : EventMetadata) : ExecState :=
  if metadata.source = "herdr" ∧ metadata.sourceEventType = "done" then
    if current.isTerminal then .ended else .idle
  else match observed with
    | .stale _ =>
      match current with
      | .ended => .ended
      | .stale sinceMs =>
        if staleGraceMs ≤ satSubI64 metadata.receiptTimeMs sinceMs then .ended else .stale sinceMs
      | _ => .stale metadata.receiptTimeMs
    | .ended => .ended
    | state => if current.isTerminal then .ended else state

/-! ### Events and batches -/

namespace NormalizedEvent

def metadata : NormalizedEvent → EventMetadata
  | controllerEvent metadata _ => metadata
  | topologyUpsert metadata _ _ => metadata
  | topologyClosure metadata _ => metadata
  | agentStatusChanged metadata _ _ => metadata
  | agentNodeUpsert metadata _ => metadata
  | agentActivity metadata _ _ => metadata
  | executionBegin metadata _ => metadata
  | executionEnd metadata _ => metadata

/-- The event with its metadata changed. -/
def mapMetadata (f : EventMetadata → EventMetadata) : NormalizedEvent → NormalizedEvent
  | controllerEvent metadata event => controllerEvent (f metadata) event
  | topologyUpsert metadata authority entity => topologyUpsert (f metadata) authority entity
  | topologyClosure metadata entity => topologyClosure (f metadata) entity
  | agentStatusChanged metadata executionId state =>
    agentStatusChanged (f metadata) executionId state
  | agentNodeUpsert metadata node => agentNodeUpsert (f metadata) node
  | agentActivity metadata agentNodeId activity => agentActivity (f metadata) agentNodeId activity
  | executionBegin metadata execution => executionBegin (f metadata) execution
  | executionEnd metadata executionId => executionEnd (f metadata) executionId

end NormalizedEvent

/-- Follows the merges recorded so far, at most as many times as there are any. -/
def followMerges (mergedInto : HashMap RunId RunId) : ℕ → RunId → RunId
  | 0, runId => runId
  | n + 1, runId =>
    match mergedInto.get runId with
    | some survivor => followMerges mergedInto n survivor
    | none => runId

/-- Lets recorded events name the runs that the merges before them left. -/
def normalizeLineage : PersistBatch → HashMap RunId RunId → PersistBatch
  | [], _ => []
  | .mergeTaskRuns survivor absorbed :: rest, mergedInto =>
    .mergeTaskRuns survivor absorbed :: normalizeLineage rest (mergedInto.insert absorbed survivor)
  | .recordEvent event seenAtMs :: rest, mergedInto =>
    .recordEvent (event.mapMetadata fun metadata =>
      { metadata with
        taskRunId := metadata.taskRunId.map (followMerges mergedInto mergedInto.keys.length) })
      seenAtMs :: normalizeLineage rest mergedInto
  | op :: rest, mergedInto => op :: normalizeLineage rest mergedInto

def normalizePersistBatchLineage (batch : PersistBatch) : PersistBatch := normalizeLineage batch ∅

/-- The run that stands for another one after the merges of a batch. -/
def canonicalRunAfterBatch (runId : RunId) : PersistBatch → RunId
  | [] => runId
  | .mergeTaskRuns survivor absorbed :: rest =>
    canonicalRunAfterBatch (if absorbed = runId then survivor else runId) rest
  | _ :: rest => canonicalRunAfterBatch runId rest

/-! ### Keys and names -/

/-- The name of a provider in identities that are persisted. -/
def stableProviderToken : Provider → String
  | .claude => "claude"
  | .codex => "codex"

def deterministicAgentNodeId (provider : Provider) (sid : String) : String :=
  s!"agent:{stableProviderToken provider}:{sid}"

def stableProviderLifecycleRunKeyIdentity : RunKey → String
  | .controller controllerId => s!"v1:controller:{controllerId.utf8ByteSize}:{controllerId}"
  | .native provider sid => s!"v1:native:{stableProviderToken provider}:{sid.utf8ByteSize}:{sid}"
  | .nativePath provider path =>
    s!"v1:native-path:{stableProviderToken provider}:{path.utf8ByteSize}:{path}"
  | .provisional terminalId startMs seq =>
    s!"v1:provisional:{terminalId.utf8ByteSize}:{terminalId}:{startMs}:{seq}"

/-- The key made up for a terminal. -/
def provisionalKey (terminalId : String) (timestampMs : ℤ) (ordinal : DisplayOrdinal) : RunKey :=
  .provisional terminalId timestampMs ordinal.toNat

/-- Whether one text occurs in another. -/
def containsText (text pattern : List Char) : Bool := text.tails.any fun tail => pattern.isPrefixOf tail

def providerFromName (name : String) : Option Provider :=
  let normalized := name.toList.map Char.toLower
  if containsText normalized "codex".toList then some .codex
  else if containsText normalized "claude".toList then some .claude
  else none

/-- The provider of an agent: the session's word counts before the agent's name. -/
def snapshotProvider (agentName : String) (sessionAgent : Option String) : Option Provider :=
  (sessionAgent.bind providerFromName).or (providerFromName agentName)

/-- The session a run is bound to: by its keys, else by its agents when they agree. -/
def nativeBinding (m : DomainModel) (runId : RunId) : Option (Provider × String) :=
  match (m.keysOf runId).findSome? (·.nativeId) with
  | some bound => some bound
  | none =>
    let bindings := (m.agentNodes.values.filter fun node => node.taskRunId = runId).filterMap
      fun node => node.nativeSessionId.map fun sid => (node.provider, sid)
    match bindings with
    | [] => none
    | first :: rest => if rest.all (· = first) then some first else none

def persistTaskRun (m : DomainModel) (taskRun : TaskRun) (timestampMs : ℤ) : PersistOp :=
  .upsertTaskRun (persistedRun taskRun (nativeBinding m taskRun.runId) timestampMs)

def persistExecution (execution : Execution) (timestampMs : ℤ) : PersistOp :=
  .upsertExecution
    { execution := execution
      startedAtMs := timestampMs
      updatedAtMs := timestampMs
      endedAtMs := if execution.state.isTerminal then some timestampMs else none }

/-- The time by which a run's bookkeeping goes: the source's for the lane, else that of receipt. -/
def runBookkeepingTimeMs (metadata : EventMetadata) : ℤ :=
  if metadata.source = sourceLogLane then metadata.timestampMs else metadata.receiptTimeMs

/-- The provider and the session of an event, when both are given and the session is not empty. -/
def EventMetadata.nativeSession (metadata : EventMetadata) : Option (Provider × String) :=
  match metadata.provider, metadata.nativeSessionId with
  | some provider, some sid => if sid = "" then none else some (provider, sid)
  | _, _ => none

/-! ### The rules -/

@[simp] theorem terminalTransition_absorbing {current : TaskState}
    (h : current.isSemanticTerminal = true) (target : TaskState) :
    terminalTransition current target = current := by
  unfold terminalTransition
  by_cases hct : current = target <;> simp [h, hct]

/-- No event moves a run out of a semantic end. -/
theorem controllerTaskTransition_absorbing {current : TaskState}
    (h : current.isSemanticTerminal = true) (sourceEventType : String) (supplied : TaskState) :
    controllerTaskTransition current sourceEventType supplied false = current := by
  unfold controllerTaskTransition
  cases current <;> simp [TaskState.isSemanticTerminal] at h <;>
    cases controllerEventKind sourceEventType <;> cases supplied <;>
      simp [terminalTransition, TaskState.isSemanticTerminal]

theorem TaskState.isTerminal_of_semantic {state : TaskState} (h : state.isSemanticTerminal = true) :
    state.isTerminal = true := by
  cases state <;> simp_all [TaskState.isSemanticTerminal, TaskState.isTerminal]

end HerdrTop
