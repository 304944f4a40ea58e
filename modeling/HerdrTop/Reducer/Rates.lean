import Mathlib
import HerdrTop.Reducer.Lifecycle
import HerdrTop.Model.Publication
import HerdrTop.Status

/-!
# Rates, telemetry and publication

What happens around an observation once its operations are known: the runs it touched are
noted, usage samples that waited for their run are counted, the rates of the noted runs are
observed, and the snapshot is published unless something withholds it.
-/

namespace HerdrTop.Reducer

def setModel (r : Reducer) (model : DomainModel) : Reducer := { r with model := model }

/-! ### Rates -/

/-- Whether a run counts as working at a time. -/
def working (r : Reducer) (run : TaskRun) (nowMs : ℤ) : Bool :=
  runRateWorking r.headlessInactivityMs r.model run nowMs

/-- The epoch of an observation, and whether it may close a live interval. -/
def measurement (r : Reducer) : RateObservationOrigin → ℕ × Bool
  | .historical => (r.rateEpoch, false)
  | .live epoch => (epoch, true)

/-- What the interval since a cursor adds to the totals. -/
def intervalDelta (cursor : RunRateCursor) (outputTokens : ℕ) (observedAtMs : ℤ) : RunRateTotals where
  outputTokens := outputTokens - cursor.baselineOutputTokens
  workingMs := if cursor.working then satSubI64 observedAtMs cursor.lastObservedAtMs else 0

/-- Closes the open interval of a run and opens the next. -/
def observeRunRatesWithActivity (r : Reducer) (observation : RateObservation) (working : Bool) :
    Reducer :=
  let runId := observation.runId
  match r.model.taskRun runId with
  | none => r.setModel (r.model.removeRunRateCursor runId)
  | some run =>
    let outputTokens := ((r.model.telemetry.get runId).map (·.outputTokens)).getD 0
    let measurementEpoch := (r.measurement observation.origin).1
    let liveBaseline := (r.measurement observation.origin).2
    let cursorAt := fun observedAtMs : ℤ =>
      { baselineOutputTokens := outputTokens
        lastObservedAtMs := observedAtMs
        working := working
        measurementEpoch := measurementEpoch
        identityBasis := run.key
        liveBaseline := liveBaseline : RunRateCursor }
    match r.model.rateCursors.get runId with
    | none => r.setModel (r.model.setRunRateCursor runId (cursorAt observation.observedAtMs))
    | some cursor =>
      let observedAtMs := max cursor.lastObservedAtMs observation.observedAtMs
      let trustworthy := liveBaseline && cursor.liveBaseline &&
        cursor.measurementEpoch = measurementEpoch && cursor.identityBasis = run.key
      let delta := intervalDelta cursor outputTokens observedAtMs
      let r :=
        if trustworthy && (decide (0 < delta.outputTokens) || decide (0 < delta.workingMs)) then
          { r.setModel (r.model.accumulateRunRateTotals runId delta) with
            dirtyRateTotals := HashSet.insert r.dirtyRateTotals runId }
        else r
      r.setModel (r.model.setRunRateCursor runId (cursorAt observedAtMs))

/-- Starts a new epoch; nothing is observed in it until it is activated. -/
def beginRateEpoch (r : Reducer) : Reducer :=
  { r.setModel r.model.clearRunRateCursors with
    rateEpoch := (r.rateEpoch + 1) % 2 ^ 64
    rateEpochActive := false
    pendingRateObservationRuns := (∅ : HashMap RunId Unit) }

/-- The runs that the start of an epoch observes: those that work or have a live execution. -/
def epochCandidates (r : Reducer) (observedAtMs : ℤ) : List (RunId × Bool) :=
  let candidates := r.model.taskRuns.values.filterMap fun run =>
    let working := r.working run observedAtMs
    let livePausedExecution :=
      r.model.executions.values.any (fun e => !e.state.isTerminal && e.taskRunId = run.runId) &&
        !run.state.isTerminal && !(r.model.v6State run.runId).any (·.nativeSessionEnd.isSome)
    if working || livePausedExecution then some (run.runId, working) else none
  candidates.insertionSort fun left right => left.1 ≤ right.1

/-- Opens an interval for every run of the epoch's start. -/
def activateRateEpoch (r : Reducer) (observedAtMs : ℤ) : Reducer :=
  let r := { r with rateEpochActive := true }
  (r.epochCandidates observedAtMs).foldl (fun r candidate =>
    r.observeRunRatesWithActivity ⟨candidate.1, .live r.rateEpoch, observedAtMs⟩ candidate.2) r

/-! ### Usage samples -/

/-- Counts a usage sample for the run a key leads to. -/
def accumulateTelemetry (r : Reducer) (key : RunKey) (sample : PendingTelemetry) : Reducer :=
  match r.model.taskRunByKey key with
  | none => r
  | some taskRun =>
    let retainTurn := match key with
      | .native .codex _ => true
      | _ => false
    let entry := r.model.telemetryEntry taskRun.runId sample.atMs
    let telemetry :=
      { entry with tokenBreakdown := entry.tokenBreakdown.accumulate sample.tokenBreakdown }.accumulate
        sample.outputTokens sample.attribution.model sample.attribution.effort
        sample.attribution.sandbox retainTurn
    { r.setModel (r.model.setTelemetry taskRun.runId telemetry) with
      pendingRateObservationRuns := HashSet.insert r.pendingRateObservationRuns taskRun.runId }

/-- Drops the oldest sample that waits; whether there was one. -/
def evictOldestPendingTelemetry (r : Reducer) : List RunKey → Reducer × Bool
  | [] => ({ r with pendingTelemetryOrder := [], pendingTelemetryCount := 0 }, false)
  | key :: order =>
    match r.pendingTelemetry.get key with
    | none | some [] => evictOldestPendingTelemetry r order
    | some (_ :: samples) =>
      ({ r with
        pendingTelemetry :=
          if samples.isEmpty then r.pendingTelemetry.remove key
          else r.pendingTelemetry.insert key samples
        pendingTelemetryOrder := order
        pendingTelemetryCount := r.pendingTelemetryCount - 1 }, true)

/-- Drops samples until there is room for one; every round but the last drops one. -/
def makeTelemetryRoom : ℕ → Reducer → Reducer
  | 0, r => r
  | fuel + 1, r =>
    if r.pendingTelemetryCount < pendingTelemetrySampleCapacity then r
    else
      let (r, evicted) := r.evictOldestPendingTelemetry r.pendingTelemetryOrder
      if evicted then makeTelemetryRoom fuel r else r

/-- Lets a sample wait for its run. -/
def enqueuePendingTelemetry (r : Reducer) (key : RunKey) (sample : PendingTelemetry) : Reducer :=
  let r := makeTelemetryRoom r.pendingTelemetryCount r
  { r with
    pendingTelemetry :=
      r.pendingTelemetry.insert key ((r.pendingTelemetry.get key).getD [] ++ [sample])
    pendingTelemetryOrder := r.pendingTelemetryOrder ++ [key]
    pendingTelemetryCount := r.pendingTelemetryCount + 1 }

/-- The keys with waiting samples whose run is known now, each once, oldest first. -/
def readyTelemetryKeys (r : Reducer) : List RunKey :=
  (r.pendingTelemetryOrder.filter fun key => (r.model.taskRunByKey key).isSome).reverse.dedup.reverse

/-- Counts the waiting samples of a key. -/
def applyPendingKey (r : Reducer) (key : RunKey) : Reducer :=
  match r.pendingTelemetry.get key with
  | none => r
  | some samples =>
    samples.foldl (fun r sample => r.accumulateTelemetry key sample)
      { r with
        pendingTelemetry := r.pendingTelemetry.remove key
        pendingTelemetryCount := r.pendingTelemetryCount - samples.length }

/-- Counts the waiting samples whose run is known now. -/
def applyPendingTelemetryForKnownRuns (r : Reducer) : Reducer :=
  let ready := r.readyTelemetryKeys
  ready.foldl applyPendingKey
    { r with pendingTelemetryOrder := r.pendingTelemetryOrder.filter fun key => !(key ∈ ready) }

/-! ### Publication -/

/-- Sends the snapshot to the subscribers unless a provider observation or an unanswered
submission withholds it. -/
def publishSnapshot (r : Reducer) : Reducer :=
  if r.deferProviderPublication then r
  else if r.deferProviderModelPublication then { r with providerModelPublicationPending := true }
  else if r.pendingLiveProviderSubmission.any (·.checkpoint.isSome) then r
  else { r with published := r.model.publicationSnapshot :: r.published }

/-- Observes the rate of a run that was noted. -/
def observeNoted (origin : RateObservationOrigin) (observedAtMs : ℤ) (r : Reducer) (runId : RunId) :
    Reducer :=
  match r.model.taskRun runId with
  | none => r.setModel (r.model.removeRunRateCursor runId)
  | some run =>
    r.observeRunRatesWithActivity ⟨runId, origin, observedAtMs⟩ (r.working run observedAtMs)

/-- Observes the rates of the runs noted since the last time. -/
def observeNotedRuns (r : Reducer) (nowMs : ℤ) : Reducer :=
  let context := r.rateObservationContext.getD (.live r.rateEpoch, nowMs)
  let runIds := r.pendingRateObservationRuns.keys.insertionSort (· ≤ ·)
  let r := { r with pendingRateObservationRuns := (∅ : HashMap RunId Unit) }
  if context.1 = .historical ∨ r.rateEpochActive = true then
    runIds.foldl (observeNoted context.1 context.2) r
  else r

/-- Brings samples and rates up to date. -/
def settle (r : Reducer) (nowMs : ℤ) : Reducer :=
  r.applyPendingTelemetryForKnownRuns.observeNotedRuns nowMs

/-- Brings samples and rates up to date and sends the snapshot. -/
def publish (r : Reducer) (nowMs : ℤ) : Reducer := (r.settle nowMs).publishSnapshot

/-- The run an operation changes. -/
def operationRun : PersistOp → Option RunId
  | .upsertTaskRun value => some value.taskRun.runId
  | .promoteTaskRunKey promoted _ _ => some promoted.taskRun.runId
  | .mergeTaskRuns survivor _ => some survivor
  | .upsertExecution value => some value.execution.taskRunId
  | .upsertAgentNode node => some node.taskRunId
  | .recordEvent event _ => event.metadata.taskRunId
  | _ => none

/-- Notes the run an operation changes; the totals of a merged run are its survivor's to flush. -/
def noteOperation (r : Reducer) (op : PersistOp) : Reducer :=
  let dirtyRateTotals := match op with
    | .mergeTaskRuns survivor absorbed => HashSet.insert (r.dirtyRateTotals.remove absorbed) survivor
    | _ => r.dirtyRateTotals
  { r with
    dirtyRateTotals := dirtyRateTotals
    pendingRateObservationRuns := (operationRun op).elim r.pendingRateObservationRuns
      (HashSet.insert r.pendingRateObservationRuns) }

/-- Notes the runs a batch changes. -/
def applyOperatorSubmission (r : Reducer) (persist : PersistBatch) : Reducer :=
  persist.foldl noteOperation r

def recomputeDanglingAnnouncementComponents (r : Reducer) : Reducer :=
  r.setModel (r.model.updateDiagnostics
    (·.setDanglingAnnouncementComponents r.model.danglingAnnouncementComponents))

/-- Closes the open intervals of the working runs; the totals to flush. -/
def checkpointRunRates (r : Reducer) (observedAtMs : ℤ) : Reducer × List (RunId × RunRateTotals) :=
  let runIds := ((r.model.rateCursors.toList.filter (·.2.working)).map Prod.fst).insertionSort (· ≤ ·)
  let before := r.model.rateTotals
  let r := if r.rateEpochActive then
      runIds.foldl (fun r runId =>
        r.observeRunRatesWithActivity ⟨runId, .live r.rateEpoch, observedAtMs⟩ true) r
    else r
  let r := if runIds.any fun runId => r.model.rateTotals.get runId ≠ before.get runId then
      r.publishSnapshot
    else r
  let dirty := r.dirtyRateTotals.keys.insertionSort (· ≤ ·)
  ({ r with dirtyRateTotals := (∅ : HashMap RunId Unit) },
    dirty.filterMap fun runId => (r.model.rateTotals.get runId).map fun totals => (runId, totals))

/-- Takes totals that could not be flushed back. -/
def restoreDirtyRateTotals (r : Reducer) (totals : List (RunId × RunRateTotals)) : Reducer :=
  { r with dirtyRateTotals := HashSet.extend r.dirtyRateTotals (totals.map Prod.fst) }

end HerdrTop.Reducer
