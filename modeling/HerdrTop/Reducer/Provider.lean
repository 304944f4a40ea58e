import HerdrTop.Reducer.Controller

/-!
# Provider observations

An observation of the provider lane runs between `beginProviderObservation` and
`finishProviderObservation`, or is cancelled. A historical one keeps the before-images of the
runs it touches; a live one that may touch runs with incomplete history keeps a checkpoint, to
which the reducer returns when the store did not take the write.

The functions return `none` where the program stops with a failed assertion.
-/

namespace HerdrTop

/-! ### Checkpoints -/

/-- Everything that a live observation may change. -/
def LiveProviderObservationCheckpoint.capture (r : Reducer) : LiveProviderObservationCheckpoint where
  model := r.model
  nextOrdinal := r.nextOrdinal
  nextIngestSeq := r.nextIngestSeq
  terminalEventSources := r.terminalEventSources
  nonLaneTaskStateRuns := r.nonLaneTaskStateRuns
  pendingTelemetry := r.pendingTelemetry
  pendingTelemetryOrder := r.pendingTelemetryOrder
  pendingTelemetryCount := r.pendingTelemetryCount
  dirtyRateTotals := r.dirtyRateTotals
  pendingRateObservationRuns := r.pendingRateObservationRuns

/-- Returns to a checkpoint. -/
def LiveProviderObservationCheckpoint.restore (c : LiveProviderObservationCheckpoint) (r : Reducer) :
    Reducer :=
  { r with
    model := c.model
    nextOrdinal := c.nextOrdinal
    nextIngestSeq := c.nextIngestSeq
    terminalEventSources := c.terminalEventSources
    nonLaneTaskStateRuns := c.nonLaneTaskStateRuns
    pendingTelemetry := c.pendingTelemetry
    pendingTelemetryOrder := c.pendingTelemetryOrder
    pendingTelemetryCount := c.pendingTelemetryCount
    dirtyRateTotals := c.dirtyRateTotals
    pendingRateObservationRuns := c.pendingRateObservationRuns }

/-- The model before an observation. -/
def ProviderObservationPrior.before : ProviderObservationPrior → DomainModel
  | .historical before => before
  | .live checkpoint => checkpoint.model

/-- Whether an observation kept what a historical one keeps. -/
def ProviderObservationPrior.isHistorical : ProviderObservationPrior → Bool
  | .historical _ => true
  | .live _ => false

/-- Whether an observation is read from history. -/
def ObservationOrigin.isHistorical : ObservationOrigin → Bool
  | .historical _ _ => true
  | .live => false

/-- The drain an observation belongs to. -/
def ObservationOrigin.drain : ObservationOrigin → Option HistoryDrainId
  | .historical drainId _ => some drainId
  | .live => none

/-! ### What an observation touched -/

/-- The runs an operation names. -/
def operationRuns : PersistOp → List RunId
  | .upsertTaskRun value => [value.taskRun.runId]
  | .promoteTaskRunKey promoted _ _ => [promoted.taskRun.runId]
  | .mergeTaskRuns survivor absorbed => [survivor, absorbed]
  | .upsertExecution value => [value.execution.taskRunId]
  | .upsertAgentNode node => [node.taskRunId]
  | .upsertExecutionEdge edge _ => [edge.parentRunId, edge.childRunId]
  | .upsertDependencyEdge edge _ => [edge.prerequisiteRunId, edge.dependentRunId]
  | .recordEvent event _ => event.metadata.taskRunId.toList
  | _ => []

/-- The runs an observation touched, sorted: those its operations name and those whose rows
changed. -/
def touchedRuns (m : DomainModel) (prior : Option ProviderObservationPrior) (operations : PersistBatch) :
    List RunId :=
  let changed := (prior.map fun prior => m.changedTaskRunIdsSince prior.before).getD []
  ((operations.flatMap operationRuns ++ changed).insertionSort (· ≤ ·)).dedup

/-- Keeps the before-image of a run that was shown as it stood. -/
def captureTouched (before : DomainModel) (operations : PersistBatch)
    (kept : DomainModel × List HistoryRunPublication) (runId : RunId) :
    DomainModel × List HistoryRunPublication :=
  if (before.v6State runId).any (·.historyReady) then
    match before.captureHistoryPublication runId with
    | none => kept
    | some publication =>
      let publication :=
        { publication with canonicalRunId := canonicalRunAfterBatch runId operations }
      let (m, installed) := kept.1.installHistoryPublication publication
      (m, if installed then kept.2 ++ [publication] else kept.2)
  else kept

/-- The last row of a run among the operations. -/
def lastPersisted (operations : PersistBatch) (runId : RunId) : Option PersistTaskRun :=
  (operations.filterMap fun
    | .upsertTaskRun value => if value.taskRun.runId = runId then some value else none
    | .promoteTaskRunKey promoted _ _ =>
      if promoted.taskRun.runId = runId then some promoted else none
    | _ => none).getLast?

/-- The row of a touched run for the store. -/
def persistTouched (m : DomainModel) (operations : PersistBatch) (current : TaskRun)
    (providerAtMs : ℤ) : PersistTaskRun :=
  let persisted := (lastPersisted operations current.runId).getD
    (persistedRun current (nativeBinding m current.runId) providerAtMs)
  { persisted with
    taskRun := current
    createdAtMs := current.createdAtMs.getD persisted.createdAtMs
    updatedAtMs := current.updatedAtMs.getD persisted.updatedAtMs
    finishedAtMs := current.finishedAtMs }

/-- What has been gathered about the touched runs. -/
structure Finishing where
  model : DomainModel
  taskRuns : List PersistTaskRunV6 := []
  /-- The runs that the touched ones have become. -/
  canonical : List RunId := []

/-- Marks a touched run: a historical observation makes its history incomplete. -/
def Finishing.touch (operations : PersistBatch) (historical : Bool) (providerAtMs : ℤ) (f : Finishing)
    (runId : RunId) : Finishing :=
  let canonicalRunId := canonicalRunAfterBatch runId operations
  match f.model.taskRun canonicalRunId with
  | none => f
  | some current =>
    let state := (f.model.v6State canonicalRunId).getD {}
    let state :=
      { state with
        historyReady := !historical && state.historyReady
        latestProviderAtMs := some (state.latestProviderAtMs.elim providerAtMs (max · providerAtMs)) }
    let model := (f.model.insertTaskRun current).setV6State canonicalRunId state
    { model := model
      taskRuns := f.taskRuns ++
        [⟨persistTouched model operations current providerAtMs,
          { state with historyReady := !historical }⟩]
      canonical := f.canonical ++ [canonicalRunId] }

/-- Sorted, each run once. -/
def sortedRuns (runIds : List RunId) : List RunId := (runIds.insertionSort (· ≤ ·)).dedup

/-- Sorted by run, the first row of each. -/
def sortedRows (rows : List PersistTaskRunV6) : List PersistTaskRunV6 :=
  (rows.insertionSort fun left right =>
    left.taskRun.taskRun.runId ≤ right.taskRun.taskRun.runId).destutter fun left right =>
      left.taskRun.taskRun.runId ≠ right.taskRun.taskRun.runId

def providerV6BatchIsEmpty (batch : PersistV6Batch) : Bool :=
  batch.operations.isEmpty && batch.taskRuns.isEmpty && batch.rateTotals.isEmpty &&
    batch.historyDrains.isEmpty && batch.historyAssociations.isEmpty &&
    batch.historyPublications.isEmpty && batch.historyEventDrain.isNone

namespace Reducer

/-! ### Begin, cancel -/

/-- The runs whose history is incomplete. -/
def privateRuns (m : DomainModel) : HashSet RunId :=
  HashSet.ofList ((m.taskRuns.values.filter fun run =>
    (m.v6State run.runId).any fun state => !state.historyReady).map (·.runId))

/-- Keeps what the observation may have to go back to, and withholds the publication. -/
def beginProviderObservation (r : Reducer) (origin : ObservationOrigin) (observedAtMs : ℤ) :
    Option (Reducer × Option ProviderObservationPrior) :=
  if r.pendingLiveProviderSubmission.isSome then none
  else match origin with
    | .historical drainId _ =>
      some ({ r with
        rateObservationContext := some (.historical, observedAtMs)
        deferProviderPublication := true
        deferProviderModelPublication := false
        providerModelPublicationPending := false
        deferredProviderDrain := some drainId
        providerObservationPrivateRunIds := (∅ : HashMap RunId Unit) },
        some (.historical r.model))
    | .live =>
      let r := { r with
        rateObservationContext := some (.live r.rateEpoch, observedAtMs)
        deferProviderModelPublication := true
        providerModelPublicationPending := false
        providerObservationPrivateRunIds := privateRuns r.model }
      some (r, if r.providerObservationPrivateRunIds.keys.isEmpty then none
        else some (.live (.capture r)))

/-- Lets publication go on. -/
def endDeferral (r : Reducer) : Reducer :=
  { r with
    deferProviderPublication := false
    deferProviderModelPublication := false
    providerModelPublicationPending := false
    deferredProviderDrain := none
    providerObservationPrivateRunIds := (∅ : HashMap RunId Unit)
    rateObservationContext := none }

/-- Ends an observation that came to nothing. -/
def cancelProviderObservation (r : Reducer) (nowMs : ℤ) : Reducer :=
  if r.providerModelPublicationPending then r.endDeferral.publish nowMs else r.endDeferral

/-! ### Finish -/

/-- The before-images of a historical observation, installed and for the store. -/
def keepBeforeImages (m : DomainModel) (prior : Option ProviderObservationPrior)
    (origin : ObservationOrigin) (operations : PersistBatch) (touched : List RunId) :
    DomainModel × List HistoryRunPublication :=
  match origin, prior with
  | .historical _ _, some (.historical before) =>
    touched.foldl (captureTouched before operations) (m, [])
  | _, _ => (m, [])

/-- The checkpoint that a live submission goes on with. -/
def submissionCheckpoint (prior : Option ProviderObservationPrior) (hasReadyRuns : Bool) :
    Option LiveProviderObservationCheckpoint :=
  match prior with
  | some (.live checkpoint) => if hasReadyRuns then some checkpoint else none
  | _ => none

/-- Installs a live submission that the store has to answer. -/
def submitLive (r : Reducer) (checkpoint : Option LiveProviderObservationCheckpoint)
    (readyRunIds : List RunId) : Reducer × ProviderSubmissionReceipt :=
  let submissionId := r.nextProviderSubmissionToken
  ({ r with
    nextProviderSubmissionToken := submissionId + 1
    pendingLiveProviderSubmission := some ⟨submissionId, checkpoint, readyRunIds⟩ },
    .live (some submissionId))

/-- The runs that a live observation touched while their history was incomplete. -/
def readyRuns (r : Reducer) (origin : ObservationOrigin) (operations : PersistBatch)
    (canonical : List RunId) : List RunId :=
  if origin.isHistorical then []
  else
    let privateLive := r.providerObservationPrivateRunIds.keys.map
      (canonicalRunAfterBatch · operations)
    sortedRuns (canonical.filter (· ∈ privateLive))

/-- What the store has to take. -/
def finishBatch (operations : PersistBatch) (origin : ObservationOrigin)
    (historyManifest : Option PersistHistoryDrain) (publications : List HistoryRunPublication)
    (finishing : Finishing) : PersistV6Batch where
  operations := operations
  taskRuns := sortedRows finishing.taskRuns
  historyDrains := if origin.isHistorical then historyManifest.toList else []
  historyAssociations := (origin.drain.map fun drainId =>
    (sortedRuns finishing.canonical).map fun runId => ⟨drainId, runId⟩).getD []
  historyPublications := publications
  historyEventDrain := origin.drain

/-- Ends an observation: what the store has to take, and what its answer will refer to. -/
def finishProviderObservation (r : Reducer) (prior : Option ProviderObservationPrior)
    (operations : PersistBatch) (origin : ObservationOrigin)
    (historyManifest : Option PersistHistoryDrain) (providerAtMs nowMs : ℤ) :
    Option (Reducer × PersistV6Batch × ProviderSubmissionReceipt) :=
  let touched := touchedRuns r.model prior operations
  let kept := keepBeforeImages r.model prior origin operations touched
  let finishing := touched.foldl (Finishing.touch operations origin.isHistorical providerAtMs)
    { model := kept.1 }
  let readyRunIds := r.readyRuns origin operations finishing.canonical
  let batch := finishBatch operations origin historyManifest kept.2 finishing
  let checkpoint := submissionCheckpoint prior !readyRunIds.isEmpty
  let r := r.endDeferral.setModel finishing.model
  if origin.isHistorical then some (r, batch, .historical)
  else if providerV6BatchIsEmpty batch then some (r.publish nowMs, batch, .live none)
  else if prior.any (·.isHistorical) || (!readyRunIds.isEmpty && checkpoint.isNone) ||
      r.pendingLiveProviderSubmission.isSome then none
  else
    let (r, receipt) := r.submitLive checkpoint readyRunIds
    some (if readyRunIds.isEmpty then r.publish nowMs else r, batch, receipt)

/-! ### The answer of the store -/

/-- Shows a run whose history is complete now; whether that changes anything. -/
def showReadyRun (shown : DomainModel × Bool) (runId : RunId) : DomainModel × Bool :=
  match shown.1.v6State runId with
  | none => shown
  | some state =>
    let (m, changed) := if state.historyReady then (shown.1, false)
      else (shown.1.setV6State runId { state with historyReady := true }, true)
    let (m, released) := m.releaseHistoryPublications runId
    (m, shown.2 || changed || released)

/-- Takes the answer of the store to a submission. -/
def completeProviderSubmission (r : Reducer) (receipt : ProviderSubmissionReceipt)
    (outcome : RuntimeWriteOutcome) (nowMs : ℤ) : Reducer :=
  match receipt, r.pendingLiveProviderSubmission with
  | .live (some submissionId), some pending =>
    if pending.submissionId ≠ submissionId then r
    else
      let r := { r with pendingLiveProviderSubmission := none }
      if outcome.isCommitted then
        let (model, publish) := pending.readyRunIds.foldl showReadyRun
          (r.model, pending.checkpoint.isSome)
        let r := r.setModel model
        if publish then r.publish nowMs else r
      else pending.checkpoint.elim r (·.restore r)
  | _, _ => r

/-! ### Finalization of a drain -/

/-- Takes over the state of a run whose history is complete in the store. -/
def finalizeRun (r : Reducer) (finalized : FinalizedHistoryRun) : Reducer :=
  if (r.model.taskRun finalized.runId).isNone then r
  else
    let m := if r.model.v6State finalized.runId = some finalized.state then r.model
      else r.model.setV6State finalized.runId finalized.state
    let m := if finalized.state.historyReady then (m.releaseHistoryPublications finalized.runId).1
      else m
    { r.setModel m with
      pendingRateObservationRuns := HashSet.insert r.pendingRateObservationRuns finalized.runId }

/-- Takes over the result of a finalization, once. -/
def applyHistoryFinalization (r : Reducer) (finalization : HistoryDrainFinalization) (nowMs : ℤ) :
    Reducer × Bool :=
  if r.publishedHistoryDrains.contains finalization.drainId then (r, false)
  else
    let context := r.rateObservationContext
    let r := { r with
      publishedHistoryDrains := HashSet.extend (HashSet.insert r.publishedHistoryDrains
        finalization.drainId) finalization.completedDrains }
    let r := finalization.runs.foldl finalizeRun r
    let r := { r with rateObservationContext := some (.historical, finalization.finalizedAtMs) }
    ({ r.publish nowMs with rateObservationContext := context }, true)

/-! ### A whole provider event -/

/-- What the collector does for a provider event between begin and finish. -/
inductive ProviderWork
  /-- A Controller event made from the log. -/
  | synthesized (event : ControllerEvent) (fresh : FreshRunIds)
  /-- The log grew. -/
  | runLiveness (key : RunKey) (atMs observedAtMs : ℤ)
  /-- The log fell silent. -/
  | laneClose (key : RunKey) (atMs observedAtMs : ℤ)
  /-- A usage sample. -/
  | telemetry (key : RunKey) (sample : PendingTelemetry)
  /-- Events made from what an adapter reports. -/
  | observation (events : List (NormalizedEvent × RunId))

/-- Does the work of a provider event; its operations, if it came to something. -/
def work (r : Reducer) (nowMs : ℤ) : ProviderWork → Reducer × Option PersistBatch
  | .synthesized event fresh => r.applyControllerEvent event fresh nowMs
  | .runLiveness key atMs observedAtMs =>
    ((r.touchRunLivenessObserved key atMs observedAtMs nowMs).1,
      some (r.touchRunLivenessObserved key atMs observedAtMs nowMs).2)
  | .laneClose key atMs observedAtMs =>
    ((r.applyLaneCloseObserved key atMs observedAtMs nowMs).1,
      some (r.applyLaneCloseObserved key atMs observedAtMs nowMs).2)
  | .telemetry key sample => (r.applyTelemetryWithBreakdown key sample nowMs, some [])
  | .observation events =>
    match r.applyObservation events nowMs with
    | (r, .ok (.applied operations)) => (r, some operations)
    | (r, .ok (.droppedBindingConflict _)) => (r.recordBindingConflict nowMs, none)
    | (r, .error _) => (r, none)

/-- Whether an answer takes a submission back. -/
def takesBack (r : Reducer) (outcome : RuntimeWriteOutcome) : Bool :=
  !outcome.isCommitted && r.pendingLiveProviderSubmission.any (·.checkpoint.isSome)

/-- A provider event from begin to the store's answer, or to its cancellation; with the operations
whose effect stays. -/
def applyProviderEvent (r : Reducer) (origin : ObservationOrigin) (work : ProviderWork)
    (historyManifest : Option PersistHistoryDrain) (providerAtMs observedAtMs nowMs : ℤ)
    (outcome : RuntimeWriteOutcome) : Option (Reducer × PersistBatch) := do
  let (r, prior) ← r.beginProviderObservation origin observedAtMs
  match r.work nowMs work with
  | (r, none) => some (r.cancelProviderObservation nowMs, [])
  | (r, some operations) =>
    let (r, _, receipt) ← r.finishProviderObservation prior operations origin historyManifest
      providerAtMs nowMs
    some (r.completeProviderSubmission receipt outcome nowMs,
      if r.takesBack outcome then [] else operations)

end Reducer

end HerdrTop
