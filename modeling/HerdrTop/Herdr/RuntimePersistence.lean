import HerdrTop.Reducer.State
import HerdrTop.Store.Acknowledgements

/-!
# The collector's side of persistence

The collector hands its writes to the writer through a facade, which keeps a diagnostic snapshot of what became
of them. The first failure degrades the facade: from then on writes are skipped, the input of the Controller is
unavailable, and now and then the writer is asked to probe the store. A probe that succeeds ends the outage; a
marker of the gap is then owed to the store.

Left out are the texts of failures and the counters that the acceptor, the enrichment reader and the provider lane
own, which the facade copies into each publication. Clock readings, and whether the occurrence log takes a record,
are arguments.
-/

namespace HerdrTop

open Acknowledgement (PersistenceFailure PersistenceStatus Reply)

/-! ### The snapshot -/

inductive ControllerInputUnavailableReason
  | listenerUnavailable
  | runtimeUnsafe
  | persistenceUnavailable
  | acceptorStopped
  deriving DecidableEq

inductive ControllerInputStatus
  | available
  | unavailable (reason : ControllerInputUnavailableReason)
  deriving DecidableEq

inductive OwnerFreshness
  | current
  | stale
  deriving DecidableEq

inductive DiagnosticSource
  | herdr
  | controller
  | claude
  | codex
  deriving DecidableEq

inductive InputAvailability
  | available
  | partially
  | unavailable
  deriving DecidableEq

structure SourceCoverageSnapshot where
  source : DiagnosticSource
  availability : InputAvailability
  deriving DecidableEq

inductive SourceAvailability
  | available
  | unavailable (detail : String)
  | notApplicable
  deriving DecidableEq

/-- The latest availability of each source. -/
structure SourceCoverageRegistry where
  herdr : SourceAvailability
  controller : SourceAvailability
  claude : SourceAvailability
  codex : SourceAvailability
  deriving DecidableEq

def SourceCoverageRegistry.state (coverage : SourceCoverageRegistry) : DiagnosticSource → SourceAvailability
  | .herdr => coverage.herdr
  | .controller => coverage.controller
  | .claude => coverage.claude
  | .codex => coverage.codex

/-- Batches, not rows. -/
structure PersistenceCounters where
  notCommittedBatches : ℕ := 0
  durabilityUnknownBatches : ℕ := 0
  committedButDegradedBatches : ℕ := 0
  skippedBatches : ℕ := 0
  skippedOwnerUpdates : ℕ := 0
  skippedEnqueues : ℕ := 0
  deriving DecidableEq

inductive OccurrenceLogStatus
  | notAttempted
  | emitted
  | failed
  deriving DecidableEq

structure RuntimeDiagnosticsSnapshot where
  persistence : PersistenceStatus
  controllerInput : ControllerInputStatus
  owner : OwnerFreshness := .current
  persistenceCounters : PersistenceCounters := {}
  sourceCoverage : List SourceCoverageSnapshot
  firstFailureLog : OccurrenceLogStatus := .notAttempted
  deriving DecidableEq

/-- The record of the first failure, as far as the facade knows it. -/
structure PersistenceOccurrence where
  failure : PersistenceFailure
  counters : PersistenceCounters
  deriving DecidableEq

/-- Times are readings of a clock that never goes back. -/
structure PersistenceRecovery where
  retryInterval : ℕ
  nextProbeAt : Option ℕ := none
  acceptorStopPending : Bool := false
  markerPending : Bool := false
  deriving DecidableEq

def PersistenceRecovery.armCooldown (recovery : PersistenceRecovery) (now : ℕ) : PersistenceRecovery :=
  { recovery with nextProbeAt := some (now + recovery.retryInterval) }

inductive RuntimeCommandClass
  | batch
  | ownerLocation
  deriving DecidableEq

structure RuntimePersistence where
  snapshot : RuntimeDiagnosticsSnapshot
  /-- What those who watch the diagnostics see. -/
  published : RuntimeDiagnosticsSnapshot
  /-- What the occurrence log was asked to append. -/
  occurrences : List PersistenceOccurrence := []
  occurrenceAttempted : Bool := false
  recovery : PersistenceRecovery
  deriving DecidableEq

/-- When something happens, and whether the occurrence log would take a record. -/
structure Moment where
  now : ℕ
  logTakes : Bool
  deriving DecidableEq

/-! ### Coverage -/

/-- Replaces the availability of the first entry of the Controller. -/
def setControllerCoverage (availability : InputAvailability) :
    List SourceCoverageSnapshot → List SourceCoverageSnapshot
  | [] => []
  | snapshot :: coverage =>
    if snapshot.source = .controller then { snapshot with availability } :: coverage
    else snapshot :: setControllerCoverage availability coverage

def setControllerCoverageUnavailable : List SourceCoverageSnapshot → List SourceCoverageSnapshot :=
  setControllerCoverage .unavailable

def setControllerCoverageAvailable : List SourceCoverageSnapshot → List SourceCoverageSnapshot :=
  setControllerCoverage .available

def controllerInputFromCoverage : SourceAvailability → ControllerInputStatus
  | .available => .available
  | .notApplicable => .unavailable .listenerUnavailable
  | .unavailable detail =>
    if detail = "not_bound" ∨ detail = "bind_failure" then .unavailable .listenerUnavailable
    else .unavailable .runtimeUnsafe

def diagnosticSourceCoverage (coverage : SourceCoverageRegistry) (controllerInput : ControllerInputStatus) :
    List SourceCoverageSnapshot :=
  [DiagnosticSource.herdr, .controller, .claude, .codex].map fun source =>
    ⟨source,
      if source = .controller ∧ controllerInput ≠ .available then .unavailable
      else if coverage.state source = .available then .available
      else .unavailable⟩

/-- What the coverage says about the Controller. -/
def controllerCoverage (coverage : List SourceCoverageSnapshot) : Option InputAvailability :=
  (coverage.find? fun snapshot => snapshot.source = .controller).map SourceCoverageSnapshot.availability

theorem controllerCoverage_set (availability : InputAvailability) (coverage : List SourceCoverageSnapshot) :
    controllerCoverage (setControllerCoverage availability coverage) =
      (controllerCoverage coverage).map fun _ => availability := by
  induction coverage with
  | nil => rfl
  | cons snapshot coverage ih =>
    unfold setControllerCoverage
    by_cases hsource : snapshot.source = .controller
    · simp [controllerCoverage, hsource]
    · simpa [controllerCoverage, hsource] using ih

theorem controllerCoverage_diagnostic (coverage : SourceCoverageRegistry) (input : ControllerInputStatus) :
    controllerCoverage (diagnosticSourceCoverage coverage input) =
      some (if input = .available ∧ coverage.controller = .available then .available else .unavailable) := by
  by_cases hinput : input = .available <;> by_cases hstate : coverage.controller = .available <;>
    simp [controllerCoverage, diagnosticSourceCoverage, SourceCoverageRegistry.state, hinput, hstate]

theorem controllerInputFromCoverage_available {state : SourceAvailability} :
    controllerInputFromCoverage state = .available ↔ state = .available := by
  cases state with
  | available => simp [controllerInputFromCoverage]
  | notApplicable => simp [controllerInputFromCoverage]
  | unavailable detail =>
    simp only [controllerInputFromCoverage]
    split_ifs <;> simp

/-! ### The facade -/

/-- What became of a write that failed. -/
def outcomeOfFailure (failure : PersistenceFailure) : RuntimeWriteOutcome :=
  match failure.durability with
  | .committed => .committedButDegraded
  | .unknown => .durabilityUnknown
  | .notCommitted | .notApplicable => .notCommitted

/-- The counters after the failure of a batch. -/
def PersistenceCounters.recordFailure (counters : PersistenceCounters) : RuntimeWriteOutcome → PersistenceCounters
  | .committedButDegraded =>
    { counters with committedButDegradedBatches := satAddU64 counters.committedButDegradedBatches 1 }
  | .notCommitted => { counters with notCommittedBatches := satAddU64 counters.notCommittedBatches 1 }
  | .durabilityUnknown => { counters with durabilityUnknownBatches := satAddU64 counters.durabilityUnknownBatches 1 }
  | .durable | .skipped => counters

/-- The class of a failure that the writer's health tells of. -/
def ingestClass : PersistenceStatus → RuntimeCommandClass
  | .healthy => .batch
  | .degraded failure => if failure.operation = .updateOwnerLocation then .ownerLocation else .batch

namespace RuntimePersistence

/-- The snapshot before anything was published. -/
def initialSnapshot (health : PersistenceStatus) (coverage : SourceCoverageRegistry) : RuntimeDiagnosticsSnapshot where
  persistence := health
  controllerInput := controllerInputFromCoverage coverage.controller
  sourceCoverage := diagnosticSourceCoverage coverage (controllerInputFromCoverage coverage.controller)

def new (health : PersistenceStatus) (coverage : SourceCoverageRegistry) (retryInterval : ℕ) : RuntimePersistence where
  snapshot := initialSnapshot health coverage
  published := initialSnapshot health coverage
  recovery := { retryInterval }

/-- Those who watch see the snapshot. -/
def publish (p : RuntimePersistence) : RuntimePersistence := { p with published := p.snapshot }

/-- The snapshot of an outage that begins. -/
def degradedSnapshot (s : RuntimeDiagnosticsSnapshot) (failure : PersistenceFailure) (cls : RuntimeCommandClass) :
    RuntimeDiagnosticsSnapshot :=
  let s := { s with
    persistence := .degraded failure
    -- what was unavailable for another reason stays so
    controllerInput :=
      if s.controllerInput = ControllerInputStatus.available then .unavailable .persistenceUnavailable
      else s.controllerInput
    sourceCoverage := setControllerCoverageUnavailable s.sourceCoverage }
  match cls with
  | .ownerLocation => { s with owner := .stale }
  | .batch => { s with persistenceCounters := s.persistenceCounters.recordFailure (outcomeOfFailure failure) }

/-- The recovery of an outage that begins. An acceptor that has stopped does not come back with the store. -/
def degradedRecovery (p : RuntimePersistence) (now : ℕ) : PersistenceRecovery :=
  let recovery := p.recovery.armCooldown now
  if p.snapshot.controllerInput = .unavailable .acceptorStopped then { recovery with acceptorStopPending := true }
  else recovery

/-- Asks the occurrence log for the one record that it is ever asked for. -/
def logOccurrence (p : RuntimePersistence) (failure : PersistenceFailure) (logTakes : Bool) : RuntimePersistence :=
  if p.occurrenceAttempted then p
  else { p with
    occurrenceAttempted := true
    occurrences := p.occurrences ++ [⟨failure, p.snapshot.persistenceCounters⟩]
    snapshot := { p.snapshot with firstFailureLog := if logTakes then .emitted else .failed } }

/-- Only the first failure of an outage is recorded. -/
def recordFacadeFailure (p : RuntimePersistence) (failure : PersistenceFailure) (cls : RuntimeCommandClass)
    (moment : Moment) : RuntimePersistence × RuntimeWriteOutcome :=
  (if p.snapshot.persistence ≠ .healthy then p
    else
      (logOccurrence { p with
        snapshot := degradedSnapshot p.snapshot failure cls
        recovery := p.degradedRecovery moment.now } failure moment.logTakes).publish,
    outcomeOfFailure failure)

/-- Takes over what the writer's health says. -/
def ingestWriterStatus (p : RuntimePersistence) (status : PersistenceStatus) (moment : Moment) : RuntimePersistence :=
  match p.snapshot.persistence, status with
  | .healthy, .healthy => p
  | .healthy, .degraded failure => (p.recordFacadeFailure failure (ingestClass (.degraded failure)) moment).1
  | .degraded _, .degraded _ => p
  | .degraded _, .healthy =>
    let input : ControllerInputStatus :=
      if p.recovery.acceptorStopPending then .unavailable .acceptorStopped
      else if p.snapshot.controllerInput = .unavailable .persistenceUnavailable then .available
      else p.snapshot.controllerInput
    publish { p with
      snapshot := { p.snapshot with
        persistence := .healthy
        controllerInput := input
        sourceCoverage :=
          if input = .available then setControllerCoverageAvailable p.snapshot.sourceCoverage
          else setControllerCoverageUnavailable p.snapshot.sourceCoverage }
      recovery := { p.recovery with
        acceptorStopPending := false
        nextProbeAt := none
        markerPending := true } }

/-- `health` is what the writer's health says. -/
def observeWriterHealth (p : RuntimePersistence) (health : PersistenceStatus) (moment : Moment) : RuntimePersistence :=
  p.ingestWriterStatus health moment

def recordSkip (p : RuntimePersistence) (cls : RuntimeCommandClass) : RuntimePersistence :=
  let counters := p.snapshot.persistenceCounters
  match cls with
  | .batch => publish { p with snapshot := { p.snapshot with
      persistenceCounters := { counters with skippedBatches := satAddU64 counters.skippedBatches 1 } } }
  | .ownerLocation => publish { p with snapshot := { p.snapshot with
      owner := .stale
      persistenceCounters := { counters with skippedOwnerUpdates := satAddU64 counters.skippedOwnerUpdates 1 } } }

/-- A place in the writer's queue that was not to be had. -/
def recordSkippedEnqueue (p : RuntimePersistence) : RuntimePersistence :=
  let counters := p.snapshot.persistenceCounters
  publish { p with snapshot := { p.snapshot with
    persistenceCounters := { counters with skippedEnqueues := satAddU64 counters.skippedEnqueues 1 } } }

/-- The outcome of a write that the writer has answered. -/
def classifyResult (p : RuntimePersistence) (result : Reply) (cls : RuntimeCommandClass) (moment : Moment) :
    RuntimePersistence × RuntimeWriteOutcome :=
  match result with
  | .ok _ => (p, .durable)
  | .error failure => p.recordFacadeFailure failure cls moment

def refreshSnapshot (p : RuntimePersistence) (coverage : SourceCoverageRegistry) : RuntimePersistence :=
  publish { p with snapshot := { p.snapshot with
    sourceCoverage := diagnosticSourceCoverage coverage p.snapshot.controllerInput } }

def markAcceptorStopped (p : RuntimePersistence) : RuntimePersistence :=
  if p.snapshot.persistence = .healthy then
    publish { p with snapshot := { p.snapshot with
      controllerInput := .unavailable .acceptorStopped
      sourceCoverage := setControllerCoverageUnavailable p.snapshot.sourceCoverage } }
  else { p with recovery := { p.recovery with acceptorStopPending := true } }

/-- The next probe of an outage that goes on. -/
def armCooldown (p : RuntimePersistence) (now : ℕ) : RuntimePersistence :=
  { p with recovery := p.recovery.armCooldown now }

/-- The gap of the last outage is owed to the store, or is on its way to it. -/
def setMarkerPending (p : RuntimePersistence) (pending : Bool) : RuntimePersistence :=
  { p with recovery := { p.recovery with markerPending := pending } }

/-! ### What the operations do to the snapshot -/

variable {p : RuntimePersistence} {failure : PersistenceFailure} {cls : RuntimeCommandClass} {moment : Moment}
  {now : ℕ} {health : PersistenceStatus} {coverage : SourceCoverageRegistry} {pending : Bool}

@[simp] theorem publish_snapshot : p.publish.snapshot = p.snapshot := rfl

@[simp] theorem publish_published : p.publish.published = p.snapshot := rfl

@[simp] theorem publish_recovery : p.publish.recovery = p.recovery := rfl

@[simp] theorem logOccurrence_recovery (logTakes : Bool) :
    (p.logOccurrence failure logTakes).recovery = p.recovery := by
  unfold logOccurrence
  split_ifs <;> rfl

@[simp] theorem logOccurrence_persistence (logTakes : Bool) :
    (p.logOccurrence failure logTakes).snapshot.persistence = p.snapshot.persistence := by
  unfold logOccurrence
  split_ifs <;> rfl

@[simp] theorem logOccurrence_controllerInput (logTakes : Bool) :
    (p.logOccurrence failure logTakes).snapshot.controllerInput = p.snapshot.controllerInput := by
  unfold logOccurrence
  split_ifs <;> rfl

@[simp] theorem logOccurrence_sourceCoverage (logTakes : Bool) :
    (p.logOccurrence failure logTakes).snapshot.sourceCoverage = p.snapshot.sourceCoverage := by
  unfold logOccurrence
  split_ifs <;> rfl

@[simp] theorem logOccurrence_counters (logTakes : Bool) :
    (p.logOccurrence failure logTakes).snapshot.persistenceCounters = p.snapshot.persistenceCounters := by
  unfold logOccurrence
  split_ifs <;> rfl

@[simp] theorem degradedSnapshot_persistence (s : RuntimeDiagnosticsSnapshot) :
    (degradedSnapshot s failure cls).persistence = .degraded failure := by
  cases cls <;> rfl

@[simp] theorem degradedSnapshot_controllerInput (s : RuntimeDiagnosticsSnapshot) :
    (degradedSnapshot s failure cls).controllerInput =
      if s.controllerInput = .available then .unavailable .persistenceUnavailable else s.controllerInput := by
  cases cls <;> rfl

@[simp] theorem degradedSnapshot_sourceCoverage (s : RuntimeDiagnosticsSnapshot) :
    (degradedSnapshot s failure cls).sourceCoverage = setControllerCoverageUnavailable s.sourceCoverage := by
  cases cls <;> rfl

/-- An outage begins. -/
theorem recordFacadeFailure_healthy (h : p.snapshot.persistence = .healthy) :
    (p.recordFacadeFailure failure cls moment).1 =
      (logOccurrence { p with
        snapshot := degradedSnapshot p.snapshot failure cls
        recovery := p.degradedRecovery moment.now } failure moment.logTakes).publish := by
  simp [recordFacadeFailure, h]

theorem recordFacadeFailure_persistence (failure : PersistenceFailure) (cls : RuntimeCommandClass) (moment : Moment)
    (h : p.snapshot.persistence = .healthy) :
    (p.recordFacadeFailure failure cls moment).1.snapshot.persistence = .degraded failure := by
  simp [recordFacadeFailure_healthy h]

/-- The facade knows already what the writer's health says. -/
theorem observeWriterHealth_same (h : p.snapshot.persistence = health) : p.observeWriterHealth health moment = p := by
  unfold observeWriterHealth ingestWriterStatus
  cases hpersistence : p.snapshot.persistence with
  | healthy =>
    rw [hpersistence] at h
    subst h
    rfl
  | degraded failure =>
    rw [hpersistence] at h
    subst h
    rfl

theorem observeWriterHealth_healthy (h : p.snapshot.persistence = .healthy) :
    p.observeWriterHealth (.degraded failure) moment =
      (p.recordFacadeFailure failure (ingestClass (.degraded failure)) moment).1 := by
  unfold observeWriterHealth ingestWriterStatus
  rw [h]

/-- The input of the Controller once the outage is over. -/
def recoveredInput (p : RuntimePersistence) : ControllerInputStatus :=
  if p.recovery.acceptorStopPending then .unavailable .acceptorStopped
  else if p.snapshot.controllerInput = .unavailable .persistenceUnavailable then .available
  else p.snapshot.controllerInput

/-- An outage ends. -/
theorem observeWriterHealth_recovered (h : p.snapshot.persistence ≠ .healthy) :
    p.observeWriterHealth .healthy moment = publish { p with
      snapshot := { p.snapshot with
        persistence := .healthy
        controllerInput := p.recoveredInput
        sourceCoverage :=
          if p.recoveredInput = .available then setControllerCoverageAvailable p.snapshot.sourceCoverage
          else setControllerCoverageUnavailable p.snapshot.sourceCoverage }
      recovery := { p.recovery with
        acceptorStopPending := false
        nextProbeAt := none
        markerPending := true } } := by
  unfold observeWriterHealth ingestWriterStatus recoveredInput
  cases hpersistence : p.snapshot.persistence with
  | healthy => exact absurd hpersistence h
  | degraded failure => rfl

theorem recordSkip_persistence : (p.recordSkip cls).snapshot.persistence = p.snapshot.persistence := by
  cases cls <;> rfl

theorem recordSkip_recovery : (p.recordSkip cls).recovery = p.recovery := by
  cases cls <;> rfl

theorem markAcceptorStopped_persistence : p.markAcceptorStopped.snapshot.persistence = p.snapshot.persistence := by
  unfold markAcceptorStopped
  split_ifs <;> rfl

end RuntimePersistence

end HerdrTop
