import HerdrTop.Reducer.State

/-!
# Lifecycle of runs and native sessions

Evidence that a native session ended or is alive competes by its watermark; evidence that a
run has no live execution any more, or has one again, moves the run's own state.
-/

namespace HerdrTop.Tx

/-- Whether the run is among the operations already. -/
def alreadyPersisted (persist : PersistBatch) (runId : RunId) : Bool :=
  persist.any fun
    | .upsertTaskRun value => value.taskRun.runId = runId
    | .promoteTaskRunKey promoted _ _ => promoted.taskRun.runId = runId
    | _ => false

/-- The state of a run after its session was seen to end, or to be open. -/
def observedLifecycle (state : TaskRunV6State) (endStatus : Option NativeSessionEndStatus)
    (watermark : NativeLifecycleWatermark) : TaskRunV6State :=
  { state with
    nativeSessionEnd := endStatus.map fun status => ⟨status, watermark.sourceAtMs⟩
    lifecycleWatermark := some watermark }

/-- Records the end or the reopening of a native session unless something later is known. -/
def applyNativeLifecycle (tx : Tx) (runId : RunId) (endStatus : Option NativeSessionEndStatus)
    (watermark : NativeLifecycleWatermark) : Tx :=
  let state := (tx.model.v6State runId).getD {}
  if state.lifecycleWatermark.any (watermark ≤ ·) then tx
  else
    let tx := tx.withModel
      (tx.model.setV6State runId (observedLifecycle state endStatus watermark))
    if alreadyPersisted tx.persist runId then tx
    else match tx.model.taskRun runId with
      | some run => tx.push (persistTaskRun tx.model run watermark.observedAtMs)
      | none => tx

/-- Whether the run has an execution that goes on. -/
def hasLiveExecution (tx : Tx) (runId : RunId) : Bool :=
  tx.model.executions.values.any fun execution =>
    execution.taskRunId = runId && !execution.state.isTerminal

/-- Ends a run that no execution keeps going and no Controller speaks for. -/
def closeRunWithoutLiveExecution (tx : Tx) (runId : RunId) (timestampMs : ℤ) : Tx :=
  if tx.hasLiveExecution runId then tx
  else match tx.model.taskRun runId with
    | none => tx
    | some taskRun =>
      if taskRun.hasControllerTaskStateEvent || taskRun.state.isTerminal then tx
      else tx.storeRun (touchTaskRun { taskRun with state := .endedUnknown } timestampMs) timestampMs

/-- Lets a run go on that has a live execution. -/
def activateForLiveExecution (tx : Tx) (runId : RunId) (timestampMs : ℤ) : Tx :=
  match tx.model.taskRun runId with
  | none => tx
  | some taskRun =>
    if taskRun.state = .endedUnknown ∨
        (taskRun.state = .queued ∧ taskRun.hasControllerTaskStateEvent = false) then
      tx.storeRun (touchTaskRun { taskRun with state := .running } timestampMs) timestampMs
    else tx

/-- Takes back the end of a native session that a live execution disproves. -/
def reopenNativeLifecycleForLiveExecution (tx : Tx) (runId : RunId) (executionId : String)
    (timestampMs : ℤ) : Tx :=
  match tx.model.taskRun runId with
  | none => tx
  | some taskRun =>
    if taskRun.state.isTerminal || !(tx.model.v6State runId).any (·.nativeSessionEnd.isSome) then tx
    else tx.applyNativeLifecycle runId none
      ⟨timestampMs, timestampMs, s!"snapshot-live-execution:{executionId}"⟩

/-- Ends the native session of a run whose history is complete and whose executions are over. -/
def closeHistoryReadyRunWithoutLiveExecution (tx : Tx) (runId : RunId) (timestampMs : ℤ) : Tx :=
  if tx.hasLiveExecution runId then tx
  else match tx.model.taskRun runId with
    | none => tx
    | some taskRun =>
      if taskRun.state.isTerminal then tx
      else match (tx.model.v6State runId).bind fun state =>
          if state.historyReady && state.nativeSessionEnd.isNone then state.latestProviderAtMs
          else none with
        | none => tx
        | some latestProviderAtMs =>
          tx.applyNativeLifecycle runId (some .unknown)
            ⟨latestProviderAtMs, timestampMs, s!"snapshot-history-close:{runId.text}"⟩

/-- The watermark of an observation that the provider log is alive. -/
def livenessWatermark (key : RunKey) (atMs observedAtMs : ℤ) : NativeLifecycleWatermark :=
  ⟨atMs, observedAtMs, s!"provider-liveness:{stableProviderLifecycleRunKeyIdentity key}"⟩

/-- The watermark of an observation that the provider log fell silent. -/
def laneCloseWatermark (key : RunKey) (atMs observedAtMs : ℤ) : NativeLifecycleWatermark :=
  ⟨atMs, observedAtMs, s!"provider-lane-close:{stableProviderLifecycleRunKeyIdentity key}"⟩

/-- Refreshes a run from an append to its provider log; also says whether to publish. -/
def touchRunLivenessObserved (tx : Tx) (key : RunKey) (atMs observedAtMs : ℤ) : Tx × Bool :=
  match tx.model.taskRunByKey key with
  | none => (tx, false)
  | some taskRun =>
    -- a non-terminal touch would clear the dismissal
    if taskRun.dismissedAtMs.isSome then (tx, false)
    else if taskRun.state.isTerminal then
      let tx := tx.applyNativeLifecycle taskRun.runId none (livenessWatermark key atMs observedAtMs)
      (tx, !tx.persist.isEmpty)
    else if taskRun.updatedAtMs.any (fun updatedAtMs => atMs ≤ updatedAtMs &&
        !(tx.model.v6State taskRun.runId).any (·.nativeSessionEnd.isSome)) then (tx, false)
    else
      ((tx.storeRun (touchTaskRun taskRun atMs) atMs).applyNativeLifecycle taskRun.runId none
        (livenessWatermark key atMs observedAtMs), true)

/-- Ends a run, or its native session, whose provider log fell silent; also says whether to
publish. -/
def applyLaneCloseObserved (tx : Tx) (key : RunKey) (atMs observedAtMs : ℤ) : Tx × Bool :=
  match tx.model.taskRunByKey key with
  | none => (tx, false)
  | some taskRun =>
    if taskRun.dismissedAtMs.isSome || taskRun.state.isTerminal ||
        tx.hasLiveExecution taskRun.runId || tx.nonLaneTaskStateRuns.contains taskRun.runId then
      (tx, false)
    else if (nativeBinding tx.model taskRun.runId).isSome then
      (tx.applyNativeLifecycle taskRun.runId (some .unknown)
        (laneCloseWatermark key atMs observedAtMs), true)
    else (tx.storeRun (touchTaskRun { taskRun with state := .endedUnknown } atMs) atMs, true)

end HerdrTop.Tx
