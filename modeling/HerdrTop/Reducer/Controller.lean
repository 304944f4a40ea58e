import HerdrTop.Reducer.Observe

/-!
# Controller events

A Controller event is first validated: its whole effect is staged on a copy of the core, or it
is rejected. A validated event is committed by installing the staged core under the next ingest
sequence.
-/

namespace HerdrTop

/-- The identities a validation draws: for its subject, for the run it names as parent or
prerequisite, and for a durable alias row. -/
structure FreshRunIds where
  subject : RunId
  related : RunId
  aliasRunId : RunId

/-- Why a commit failed. -/
inductive CommitStagedError
  | ingestSequenceExhausted
  deriving DecidableEq

def rejectMergeConflict : MergeConflict → RejectReason
  | .dispatchSelfEdge _ | .dependencySelfEdge _ | .dispatchCycle | .dependencyCycle => .cycle
  | _ => .conflict

/-- A failure during staging as the reason for the rejection. -/
def rejectReducerError : ReducerError → RejectReason
  | .bindingConflict conflict => rejectMergeConflict conflict
  | .ordinalExhausted => .conflict

/-- Every failure before the identity evidence is a conflict. -/
def orConflict (result : Except ReducerFailure Tx) : Except RejectReason Tx :=
  result.mapError fun _ => .conflict

/-! ### Validation -/

/-- Whether a Controller event is malformed. -/
def invalidControllerEvent (event : ControllerEvent) : Bool :=
  event.schemaVersion ≠ 1 || event.metadata.eventId = "" ||
    "prov:".toList.isPrefixOf event.metadata.eventId.toList || event.metadata.source = "" ||
    event.taskRunId = "" ||
    (event.metadata.nativeSessionId.isSome && event.metadata.provider.isNone) ||
    (event.metadata.source = sourceLogLane && event.metadata.timestampMs ≤ 0) ||
    event.metadata.progress.any fun progress => 10000 < progress

/-- The metadata of the staged event, still without relationships. -/
def stagedMetadata (event : ControllerEvent) (subject : RunId) : EventMetadata :=
  { event.metadata with
    label := event.metadata.label.map sanitizeControllerText
    reason := event.metadata.reason.map sanitizeControllerText
    taskRunId := some subject
    sourceEventType := controllerKindName event.event
    taskState :=
      if Tx.laneNativeTerminal event.metadata event.event then none
      else controllerTargetState event.event
    executionParent := none
    dependency := none
    ingestSeq := none }

/-- The run a relationship names beside the subject. -/
def relatedRun (m : DomainModel) (event : ControllerEvent) (name : String) (subject fresh : RunId) :
    RunId :=
  if name = event.taskRunId then subject else (resolveControllerRun m name).getD fresh

/-- The metadata with the relationship the event states. -/
def relateMetadata (m : DomainModel) (event : ControllerEvent) (metadata : EventMetadata)
    (subject fresh : RunId) : Except RejectReason EventMetadata :=
  match event.event with
  | .dispatch parentTaskRunId =>
    if parentTaskRunId = "" then .error .invalid
    else .ok { metadata with
      executionParent := some ⟨relatedRun m event parentTaskRunId subject fresh, subject⟩ }
  | .dependsOn dependsOnId =>
    if dependsOnId = "" then .error .invalid
    else .ok { metadata with
      dependency := some ⟨relatedRun m event dependsOnId subject fresh, subject⟩ }
  | _ => .ok metadata

/-- Whether a session end names the session its run is bound to. -/
def namesBoundSession (m : DomainModel) (event : ControllerEvent) (metadata : EventMetadata) : Bool :=
  ((resolveControllerRun m event.taskRunId).bind (nativeBinding m)).any fun bound =>
    metadata.provider = some bound.1 && metadata.nativeSessionId = some bound.2

/-- Checks a transition on the staged model, where its runs exist. -/
def validateControllerTransition (m : DomainModel) (event : ControllerEventKind) (subject : RunId)
    (subjectWasUnknown : Bool) (executionEdge : Option ExecutionEdge)
    (dependencyEdge : Option DependencyEdge) (nativeLifecycleTerminal : Bool) :
    Except RejectReason ControllerDiagnosticDeltas :=
  match m.taskRun subject with
  | none => .error .invalid
  | some run =>
    match event with
    | .dispatch _ =>
      match executionEdge with
      | none => .error .invalid
      | some edge =>
        match preflightExecutionEdge m edge with
        | .error conflict => .error (rejectMergeConflict conflict)
        | .ok _ => .ok {}
    | .dependsOn _ =>
      match dependencyEdge with
      | none => .error .invalid
      | some edge =>
        if run.state.isTerminal && !m.dependencyEdges.contains edge then .error .staleEvent
        else match preflightDependencyEdge m edge with
        | .error conflict => .error (rejectMergeConflict conflict)
        | .ok _ => .ok {}
    | .taskStarted =>
      if run.state.isSemanticTerminal && (nativeBinding m subject).isNone then .error .staleEvent
      else .ok {}
    | .blocked | .progress =>
      .ok { terminalBlockedProgressNoops := if run.state.isSemanticTerminal then 1 else 0 }
    | .dismiss | .sessionEnded => .ok {}
    | .complete | .failed | .cancelled =>
      if nativeLifecycleTerminal then .ok {}
      else if run.state.isSemanticTerminal && controllerTargetState event ≠ some run.state then
        .error .conflict
      else .ok { terminalForwardReferenceCreations := if subjectWasUnknown then 1 else 0 }

/-- A staged transaction as the result of validation. -/
def Tx.materialize (tx : Tx) (deltas : ControllerDiagnosticDeltas) : MaterializedDelta where
  post := tx.toCore
  diagnosticDeltas :=
    { deltas with postDanglingAnnouncementComponents := tx.model.danglingAnnouncementComponents }
  batch := tx.persist

/-- Marks a run as dismissed, if there is one, and records the event. -/
def Tx.stageDismiss (tx : Tx) (subject : RunId) (normalized : NormalizedEvent)
    (metadata : EventMetadata) : Tx :=
  let tx := match tx.model.taskRun subject with
    | some taskRun =>
      tx.storeRun { taskRun with dismissedAtMs := some metadata.receiptTimeMs } metadata.receiptTimeMs
    | none => tx
  tx.push (.recordEvent normalized metadata.receiptTimeMs)

/-- The end of a session that a Controller event tells. -/
def controllerEndStatus (metadata : EventMetadata) (event : ControllerEventKind) :
    Option NativeSessionEndStatus :=
  if event = .sessionEnded then some .done
  else if Tx.laneNativeTerminal metadata event then Tx.terminalEndStatus event
  else none

/-- Applies the lifecycle of a session that a Controller event reports. -/
def Tx.stageLifecycle (tx : Tx) (event : ControllerEvent) (metadata : EventMetadata) : Tx :=
  match (Tx.sessionOwner tx.model metadata).or (resolveControllerRun tx.model event.taskRunId) with
  | none => tx
  | some runId =>
    let endStatus := controllerEndStatus metadata event.event
    if endStatus.isSome ∨ event.event = .taskStarted then
      tx.applyNativeLifecycle runId endStatus (Tx.eventWatermark metadata)
    else tx

/-- Makes sure that the run a relationship names exists. -/
def Tx.ensureRelated (tx : Tx) (event : ControllerEventKind) (metadata : EventMetadata) :
    Except ReducerFailure Tx :=
  match event, metadata.executionParent, metadata.dependency with
  | .dispatch parentTaskRunId, some edge, _ =>
    tx.ensureControllerPlaceholder edge.parentRunId (some parentTaskRunId)
      (runBookkeepingTimeMs metadata)
  | .dependsOn dependsOnId, _, some edge =>
    tx.ensureControllerPlaceholder edge.prerequisiteRunId (some dependsOnId)
      (runBookkeepingTimeMs metadata)
  | _, _, _ => .ok tx

/-- Stages the effect of an event on its runs. -/
def Tx.stageTransition (tx : Tx) (event : ControllerEvent) (metadata : EventMetadata)
    (subject : RunId) (subjectWasUnknown : Bool) (aliasRunId : RunId) :
    Except RejectReason (Tx × ControllerDiagnosticDeltas) := do
  let normalized := NormalizedEvent.controllerEvent metadata event.event
  let laneNativeEnd := laneNativeTerminal metadata event.event
  let tx ← orConflict (tx.ensureMetadataRun subject metadata true (some event.taskRunId)
    ((metadata.taskState.map (initialControllerState metadata.sourceEventType)).getD .queued))
  let tx ← orConflict (tx.ensureRelated event.event metadata)
  let deltas ← validateControllerTransition tx.model event.event subject subjectWasUnknown
    metadata.executionParent metadata.dependency laneNativeEnd
  let tx := tx.applyControllerMetadata metadata false
  let tx ← orConflict (tx.applyEventBody normalized metadata)
  let tx ← (tx.applyIdentityMetadata normalized metadata aliasRunId).mapError fun failure =>
    rejectReducerError failure.error
  let tx := tx.stageLifecycle event metadata
  let tx := tx.persistEventExecution normalized metadata.receiptTimeMs
  let tx := if laneNativeEnd then tx else tx.updateTerminalEventSource normalized
  .ok (tx.push (.recordEvent normalized metadata.receiptTimeMs), deltas)

/-- The copy of the core on which an event is staged. -/
def Core.scratch (core : Core) : Tx :=
  { core with
    model := core.model.updateDiagnostics
      (·.setDanglingAnnouncementComponents core.model.danglingAnnouncementComponents)
    persist := [] }

/-- Stages the whole effect of a Controller event on a copy of the core. -/
def Core.validateControllerEvent (core : Core) (event : ControllerEvent) (fresh : FreshRunIds) :
    Except RejectReason MaterializedDelta :=
  if 1 < event.schemaVersion then .error .unsupportedVersion
  else if invalidControllerEvent event then .error .invalid
  else
    let subjectWasUnknown := (resolveControllerRun core.model event.taskRunId).isNone
    let subject := (resolveControllerRun core.model event.taskRunId).getD fresh.subject
    match relateMetadata core.model event (stagedMetadata event subject) subject fresh.related with
    | .error reason => .error reason
    | .ok metadata =>
      let nameless := { metadata with taskRunId := none }
      let tx := core.scratch
      if event.event = .sessionEnded ∧ namesBoundSession core.model event metadata = false then
        .ok ((tx.push (.recordEvent (.controllerEvent nameless event.event)
          metadata.receiptTimeMs)).materialize {})
      else if subjectWasUnknown ∧ metadata.source = sourceLogLane ∧ event.event.isTerminal then
        .ok (tx.materialize { unknownLaneTerminalDrops := 1 })
      else if event.event = .dismiss then
        let metadata := if subjectWasUnknown then nameless else metadata
        .ok ((tx.stageDismiss subject (.controllerEvent metadata event.event) metadata).materialize {})
      else
        (tx.stageTransition event metadata subject subjectWasUnknown fresh.aliasRunId).map
          fun staged => staged.1.materialize staged.2

/-! ### Commit -/

/-- Gives the recorded events of a batch their ingest sequence. -/
def stampIngestSeq (batch : PersistBatch) (ingestSeq : ℤ) : PersistBatch :=
  batch.map fun
    | .recordEvent event seenAtMs =>
      .recordEvent (event.mapMetadata fun metadata =>
        { metadata with ingestSeq := some ingestSeq.toNat }) seenAtMs
    | op => op

def applyControllerDiagnosticDeltas (d : ControllerDiagnostics) (deltas : ControllerDiagnosticDeltas) :
    ControllerDiagnostics :=
  (((d.recordTerminalBlockedProgressNoops deltas.terminalBlockedProgressNoops)
    |>.recordTerminalForwardReferenceCreations deltas.terminalForwardReferenceCreations)
    |>.recordUnknownLaneTerminalDrops deltas.unknownLaneTerminalDrops)
    |>.setDanglingAnnouncementComponents deltas.postDanglingAnnouncementComponents

namespace Reducer

/-- Installs a validated event. -/
def commitStaged (r : Reducer) (delta : MaterializedDelta) (nowMs : ℤ) :
    Reducer × Except CommitStagedError PersistBatch :=
  match r.nextIngestSeq.filter (0 < ·) with
  | none =>
    ((r.setModel (r.model.updateDiagnostics (·.recordIngestSequenceExhaustion))).publish nowMs,
      .error .ingestSequenceExhausted)
  | some ingestSeq =>
    let batch := normalizePersistBatchLineage
      (.advanceIngestSequence ingestSeq :: stampIngestSeq delta.batch ingestSeq)
    let r := { r.withCore delta.post with
      nextIngestSeq := if i64Max < ingestSeq + 1 then none else some (ingestSeq + 1) }
    let r := r.setModel (r.model.updateDiagnostics
      (applyControllerDiagnosticDeltas · delta.diagnosticDeltas))
    (r.submit batch nowMs, .ok batch)

/-- Validates an event and commits it; its operations, if it was not rejected. -/
def applyControllerEvent (r : Reducer) (event : ControllerEvent) (fresh : FreshRunIds) (nowMs : ℤ) :
    Reducer × Option PersistBatch :=
  match r.toCore.validateControllerEvent event fresh with
  | .error _ => (r, none)
  | .ok delta =>
    match r.commitStaged delta nowMs with
    | (r, .ok operations) => (r, some operations)
    | (r, .error _) => (r, none)

end Reducer

end HerdrTop
