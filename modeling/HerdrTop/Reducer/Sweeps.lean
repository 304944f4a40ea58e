import HerdrTop.Reducer.Observe

/-!
# Sweeps and operator commands

What the passage of time and the operator do to runs.
-/

namespace HerdrTop

/-- What an operator may ask for. -/
inductive OperatorCommand
  | dismissClearable
  deriving DecidableEq

/-- Whether a run has an execution, over or not. -/
def DomainModel.hasExecution (m : DomainModel) (runId : RunId) : Bool :=
  m.executions.values.any fun execution => execution.taskRunId = runId

/-- Whether a run is known from hooks only and has not been heard of for a day. -/
def isHookOnlyStaleTaskRun (m : DomainModel) (run : TaskRun) (nowMs : ℤ) : Bool :=
  run.key.isController && !m.hasExecution run.runId &&
    run.updatedAtMs.any fun updatedAtMs => satAddI64 updatedAtMs hookOnlyStaleVisibilityMs ≤ nowMs

namespace Tx

/-- Ends a run with its bookkeeping at the given time. -/
def expireRun (tx : Tx) (runId : RunId) (timestampMs : ℤ) : Tx :=
  match tx.model.taskRun runId with
  | none => tx
  | some taskRun =>
    tx.storeRun (touchTaskRun { taskRun with state := .endedUnknown } timestampMs) timestampMs

/-- Whether a run was last heard of long enough ago; a missing time is no evidence of that. -/
def inactiveSince (headlessInactivityMs nowMs : ℤ) (run : TaskRun) : Option ℤ :=
  (run.updatedAtMs.or run.createdAtMs).filter fun anchorMs =>
    headlessInactivityMs ≤ satSubI64 nowMs anchorMs

/-- Ends Controller runs that were announced and never began. -/
def closeInactiveDispatchOnlyRuns (tx : Tx) (headlessInactivityMs nowMs : ℤ) : Tx :=
  let runIds := ((tx.model.taskRuns.values.filter fun run =>
    run.key.isController && !tx.model.hasExecution run.runId && run.state = .queued &&
      run.dismissedAtMs.isNone && (inactiveSince headlessInactivityMs nowMs run).isSome).map
        (·.runId)).insertionSort (· ≤ ·)
  runIds.foldl (fun tx runId => tx.expireRun runId nowMs) tx

/-- Ends runs that the lane alone keeps and has not mentioned for long, as of the last mention. -/
def closeInactiveFactTimedRuns (tx : Tx) (headlessInactivityMs nowMs : ℤ) : Tx :=
  let candidates := ((tx.model.taskRuns.values.filter fun run =>
    (run.key.isController || run.key.isProvisional) && run.state = .running &&
      run.dismissedAtMs.isNone && !tx.nonLaneTaskStateRuns.contains run.runId &&
      !tx.hasLiveExecution run.runId).filterMap fun run =>
        (inactiveSince headlessInactivityMs nowMs run).map fun anchorMs =>
          (run.runId, anchorMs)).insertionSort fun left right => left.1 ≤ right.1
  candidates.foldl (fun tx candidate => tx.expireRun candidate.1 candidate.2) tx

/-- Ends executions whose grace is over, and the runs that time has closed. -/
def sweepStale (tx : Tx) (headlessInactivityMs nowMs : ℤ) : Tx :=
  let executionIds := (tx.model.executions.values.filter fun execution =>
    match execution.state with
    | .stale sinceMs => staleGraceMs ≤ satSubI64 nowMs sinceMs
    | _ => false).map (·.executionId)
  let tx := executionIds.foldl (fun tx executionId => tx.endExecution executionId nowMs) tx
  (tx.closeInactiveDispatchOnlyRuns headlessInactivityMs nowMs).closeInactiveFactTimedRuns
    headlessInactivityMs nowMs

/-- Marks a run as dismissed; its last update stays, as the operator's act is none. -/
def dismissRun (nowMs : ℤ) (tx : Tx) (runId : RunId) : Tx :=
  match tx.model.taskRun runId with
  | none => tx
  | some taskRun => tx.storeRun { taskRun with dismissedAtMs := some nowMs } nowMs

/-- Dismisses the runs that can be cleared. -/
def dismissClearable (tx : Tx) (nowMs : ℤ) : Tx :=
  let runIds := (tx.model.taskRuns.values.filter fun run =>
    run.dismissedAtMs.isNone &&
      (run.state.isTerminal || isHookOnlyStaleTaskRun tx.model run nowMs)).map (·.runId)
  runIds.foldl (dismissRun nowMs) tx

end Tx

namespace Reducer

def sweepStale (r : Reducer) (nowMs publishMs : ℤ) : Reducer × PersistBatch :=
  let tx := r.begin.sweepStale r.headlessInactivityMs nowMs
  if tx.persist.isEmpty then (r.withCore tx.toCore, [])
  else
    ((r.withCore tx.toCore).recomputeDanglingAnnouncementComponents.submit tx.persist publishMs,
      tx.persist)

def applyOperatorCommand (r : Reducer) (command : OperatorCommand) (nowMs publishMs : ℤ) :
    Reducer × PersistBatch :=
  match command with
  | .dismissClearable =>
    let tx := r.begin.dismissClearable nowMs
    (r.install tx (!tx.persist.isEmpty) publishMs, tx.persist)

end Reducer

end HerdrTop
