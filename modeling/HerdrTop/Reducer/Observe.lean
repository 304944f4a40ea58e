import HerdrTop.Reducer.Events
import HerdrTop.Reducer.Rates

/-!
# Observations

The entry points of the collector that apply events and provider evidence. An observation is
applied as a whole: when one of its events fails, model, ordinals and provenance are put back.
-/

namespace HerdrTop

/-- The agent status of a pane, as a status event reports it. -/
structure PaneAgentStatusObservation where
  paneId : String
  status : PaneAgentStatus
  deriving DecidableEq

/-- Applies events one after the other, collecting their operations; each comes with the identity
drawn for it. -/
def applyEvents : Core → List (NormalizedEvent × RunId) → Except ReducerFailure Tx
  | core, [] => .ok { core with persist := [] }
  | core, (event, aliasRunId) :: events => do
    let tx ← Tx.applyInner core event aliasRunId
    let later ← applyEvents tx.toCore events
    .ok { later with persist := tx.persist ++ later.persist }

/-- The run a Controller name leads to: as a Controller key, or, for the root key of a Codex hook,
as the session of the run that was once created under the bare session. -/
def resolveControllerRun (m : DomainModel) (raw : String) : Option RunId :=
  match m.taskRunByKey (.controller raw) with
  | some run => some run.runId
  | none =>
    if "hook:codex:".toList.isPrefixOf raw.toList then
      let sid := String.ofList (raw.toList.drop "hook:codex:".toList.length)
      if sid = "" ∨ sid.toList.contains ':' then none
      else ((m.taskRunByKey (.native .codex sid)).filter fun owner =>
        owner.key = .controller sid).map (·.runId)
    else none

namespace Reducer

/-- The reducer at the start of a transaction. -/
def begin (r : Reducer) : Tx := { r.toCore with persist := [] }

/-- The reducer with the core of a transaction. -/
def withCore (r : Reducer) (core : Core) : Reducer := { r with toCore := core }

/-- Notes what a transaction changed and publishes. -/
def submit (r : Reducer) (persist : PersistBatch) (nowMs : ℤ) : Reducer :=
  (r.applyOperatorSubmission persist).publish nowMs

/-- Takes over a transaction; published when it says so. -/
def install (r : Reducer) (tx : Tx) (publish : Bool) (nowMs : ℤ) : Reducer :=
  if publish then (r.withCore tx.toCore).submit tx.persist nowMs else r.withCore tx.toCore

/-! ### Events -/

/-- Stores a changed pane status and notes the runs in the pane. -/
def notePaneAgentStatus (r : Reducer) (observation : PaneAgentStatusObservation) : Reducer :=
  let runIds := (r.model.executions.values.filter fun execution =>
    execution.paneId = observation.paneId).map (·.taskRunId)
  { r.setModel (r.model.setPaneAgentStatus observation.paneId observation.status) with
    pendingRateObservationRuns := HashSet.extend r.pendingRateObservationRuns runIds }

/-- Whether an observation changes the status of a known pane. -/
def paneAgentStatusChanged (r : Reducer) (observation : PaneAgentStatusObservation) : Bool :=
  (r.model.panes.get observation.paneId).isSome &&
    r.model.paneAgentStatuses.get observation.paneId != some observation.status

/-- Puts back the model, the next ordinal and who spoke for which run. -/
def putBack (r : Reducer) (original : Core) : Reducer :=
  { r with
    model := original.model
    nextOrdinal := original.nextOrdinal
    terminalEventSources := original.terminalEventSources
    nonLaneTaskStateRuns := original.nonLaneTaskStateRuns }

/-- Applies the events of one observation, all or none. -/
def applyObservationInner (r : Reducer) (events : List (NormalizedEvent × RunId))
    (paneAgentObservation : Option PaneAgentStatusObservation) (nowMs : ℤ) :
    Reducer × Except ReducerError ApplyOutcome :=
  let changed := paneAgentObservation.filter r.paneAgentStatusChanged
  if events.isEmpty && changed.isNone then (r, .ok (.applied []))
  else
    let original := r.toCore
    let r := changed.elim r r.notePaneAgentStatus
    match applyEvents r.toCore events with
    | .ok tx =>
      let persist := normalizePersistBatchLineage tx.persist
      ((r.withCore tx.toCore).recomputeDanglingAnnouncementComponents.submit persist nowMs,
        .ok (.applied persist))
    | .error ⟨.bindingConflict conflict, core⟩ =>
      ((r.withCore core).putBack original, .ok (.droppedBindingConflict conflict))
    | .error ⟨error, core⟩ => ((r.withCore core).putBack original, .error error)

/-- Applies one observation. -/
def applyObservation (r : Reducer) (events : List (NormalizedEvent × RunId)) (nowMs : ℤ) :
    Reducer × Except ReducerError ApplyOutcome :=
  r.applyObservationInner events none nowMs

/-- Applies one observation that comes with the agent status of a pane. -/
def applyPaneAgentObservation (r : Reducer) (events : List (NormalizedEvent × RunId))
    (observation : PaneAgentStatusObservation) (nowMs : ℤ) :
    Reducer × Except ReducerError ApplyOutcome :=
  r.applyObservationInner events (some observation) nowMs

/-- Binds the one rollout that matches a sessionless Codex pane. Nothing is put back after a conflict. -/
def applyHeuristicBinding (r : Reducer) (run : RunId) (sid : String) (bookkeepingTimeMs : ℤ)
    (aliasRunId : RunId) (nowMs : ℤ) : Reducer × ApplyOutcome :=
  match r.begin.applyBinding (.heuristicNativeSession run sid) bookkeepingTimeMs aliasRunId with
  | .ok tx =>
    let persist := normalizePersistBatchLineage tx.persist
    ((r.withCore tx.toCore).recomputeDanglingAnnouncementComponents.submit persist nowMs,
      .applied persist)
  | .error ⟨.bindingConflict conflict, core⟩ => (r.withCore core, .droppedBindingConflict conflict)
  -- a binding draws no ordinal
  | .error ⟨.ordinalExhausted, core⟩ => (r.withCore core, .applied [])

/-! ### Provider evidence -/

/-- Refreshes a run from an append to its provider log. -/
def touchRunLivenessObserved (r : Reducer) (key : RunKey) (atMs observedAtMs nowMs : ℤ) :
    Reducer × PersistBatch :=
  let (tx, publish) := r.begin.touchRunLivenessObserved key atMs observedAtMs
  (r.install tx publish nowMs, tx.persist)

/-- Ends a run, or its native session, whose provider log fell silent. -/
def applyLaneCloseObserved (r : Reducer) (key : RunKey) (atMs observedAtMs nowMs : ℤ) :
    Reducer × PersistBatch :=
  let (tx, publish) := r.begin.applyLaneCloseObserved key atMs observedAtMs
  (r.install tx publish nowMs, tx.persist)

/-- Counts a usage sample, now or when its run is known. -/
def applyTelemetryWithBreakdown (r : Reducer) (key : RunKey) (sample : PendingTelemetry)
    (nowMs : ℤ) : Reducer :=
  if (r.model.taskRunByKey key).isSome then (r.accumulateTelemetry key sample).publish nowMs
  else r.enqueuePendingTelemetry key sample

/-! ### Diagnostics and provenance -/

def recordBindingConflict (r : Reducer) (nowMs : ℤ) : Reducer :=
  (r.setModel (r.model.updateDiagnostics (·.recordBindingConflict))).publish nowMs

def recordProviderIdentityDisagreement (r : Reducer) (nowMs : ℤ) : Reducer :=
  (r.setModel (r.model.updateDiagnostics (·.recordProviderIdentityDisagreement))).publish nowMs

/-- Rebuilds what is not persisted from a Controller event of the lane that is already stored. -/
def restoreReplayedControllerTransients (r : Reducer) (event : ControllerEvent) (nowMs : ℤ) :
    Reducer :=
  if event.metadata.source = sourceLogLane then
    match resolveControllerRun r.model event.taskRunId with
    | none => r
    | some runId =>
      match event.event with
      | .dispatch _ | .taskStarted =>
        match event.metadata.providerMetadata.bind (·.eventKind) with
        | some kind =>
          if (r.model.runKinds.get runId).isNone && kind ≠ "" then
            (r.setModel (r.model.setRunKind runId kind)).publish nowMs
          else r
        | none => r
      | .complete | .failed | .cancelled =>
        { r with terminalEventSources := r.terminalEventSources.orInsert runId sourceLogLane }
      | _ => r
  else r

/-- Takes over who ended which run from the stored events. -/
def restoreTerminalEventSources (r : Reducer) (sources : HashMap RunId String) : Reducer :=
  { r with terminalEventSources := sources.retain fun runId _ => (r.model.taskRun runId).isSome }

/-- Takes over for which runs a Controller spoke from the stored events. -/
def restoreNonLaneTaskStateRuns (r : Reducer) (runs : HashSet RunId) : Reducer :=
  { r with nonLaneTaskStateRuns := runs.retain fun runId _ => (r.model.taskRun runId).isSome }

end Reducer

end HerdrTop
