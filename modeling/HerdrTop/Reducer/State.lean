import HerdrTop.Reducer.Transitions

/-!
# The reducer's state

`Core` is what one observation changes and, when it fails, gets back. A transaction `Tx` is a
core together with the operations collected for the store. `Reducer` adds what belongs to the
publication of snapshots, to the rate ledger and to unresolved provider submissions.

Clock readings and freshly drawn identities are arguments of the functions that take them.
Left out is the operator projection, which only receives what happened.
-/

namespace HerdrTop

/-- Why a transition was rejected. -/
inductive ReducerError
  /-- No display ordinal is left. -/
  | ordinalExhausted
  /-- Identity evidence conflicted. -/
  | bindingConflict (conflict : MergeConflict)
  deriving DecidableEq

/-- The result of one observation. -/
inductive ApplyOutcome
  | applied (persist : PersistBatch)
  | droppedBindingConflict (conflict : MergeConflict)
  deriving DecidableEq

/-- Why a Controller event was rejected. -/
inductive RejectReason
  | invalid
  | cycle
  | conflict
  | staleEvent
  | unsupportedVersion
  deriving DecidableEq

/-- Increments found during validation. -/
structure ControllerDiagnosticDeltas where
  terminalBlockedProgressNoops : ℕ := 0
  terminalForwardReferenceCreations : ℕ := 0
  unknownLaneTerminalDrops : ℕ := 0
  postDanglingAnnouncementComponents : ℕ := 0
  deriving DecidableEq

/-- What observations change. -/
structure Core where
  model : DomainModel := {}
  nextOrdinal : ℤ := 1
  terminalEventSources : HashMap RunId String := ∅
  nonLaneTaskStateRuns : HashSet RunId := (∅ : HashMap RunId Unit)
  deriving DecidableEq

/-- A failed step: why it failed, and what it had changed by then. -/
structure ReducerFailure where
  error : ReducerError
  core : Core
  deriving DecidableEq

/-- A core with the operations collected so far. -/
structure Tx extends Core where
  persist : PersistBatch := []
  deriving DecidableEq

/-- A validated Controller event, ready to be installed. -/
structure MaterializedDelta where
  post : Core
  diagnosticDeltas : ControllerDiagnosticDeltas
  batch : PersistBatch

/-- A usage sample of a run that is not known yet. -/
structure PendingTelemetry where
  atMs : ℤ
  outputTokens : ℕ
  tokenBreakdown : TokenBreakdown
  attribution : TurnAttr
  deriving DecidableEq

/-- How many usage samples wait at most. -/
def pendingTelemetrySampleCapacity : ℕ := 4096

/-- Whether a rate is observed from history or live, and in which epoch. -/
inductive RateObservationOrigin
  | historical
  | live (epoch : ℕ)
  deriving DecidableEq

/-- One observation of a run's rate. -/
structure RateObservation where
  runId : RunId
  origin : RateObservationOrigin
  observedAtMs : ℤ

/-- What a live provider submission may change before the store answered. -/
structure LiveProviderObservationCheckpoint where
  model : DomainModel
  nextOrdinal : ℤ
  nextIngestSeq : Option ℤ
  terminalEventSources : HashMap RunId String
  nonLaneTaskStateRuns : HashSet RunId
  pendingTelemetry : HashMap RunKey (List PendingTelemetry)
  pendingTelemetryOrder : List RunKey
  pendingTelemetryCount : ℕ
  dirtyRateTotals : HashSet RunId
  pendingRateObservationRuns : HashSet RunId

/-- What a provider observation keeps of the state before it. -/
inductive ProviderObservationPrior
  | historical (before : DomainModel)
  | live (checkpoint : LiveProviderObservationCheckpoint)

/-- A live submission the store has not answered. -/
structure PendingLiveProviderSubmission where
  submissionId : ℕ
  checkpoint : Option LiveProviderObservationCheckpoint
  readyRunIds : List RunId

/-- What an acknowledgement of a provider submission refers to. -/
inductive ProviderSubmissionReceipt
  | historical
  | live (submissionId : Option ℕ)
  deriving DecidableEq

/-- What became of a write. -/
inductive RuntimeWriteOutcome
  | durable
  | committedButDegraded
  | notCommitted
  | durabilityUnknown
  | skipped
  deriving DecidableEq

/-- Whether the write is in the store. -/
def RuntimeWriteOutcome.isCommitted : RuntimeWriteOutcome → Bool
  | .durable | .committedButDegraded => true
  | _ => false

/-- The reducer. -/
structure Reducer extends Core where
  nextIngestSeq : Option ℤ := some 1
  pendingTelemetry : HashMap RunKey (List PendingTelemetry) := ∅
  pendingTelemetryOrder : List RunKey := []
  pendingTelemetryCount : ℕ := 0
  rateEpoch : ℕ := 0
  rateEpochActive : Bool := false
  dirtyRateTotals : HashSet RunId := (∅ : HashMap RunId Unit)
  pendingRateObservationRuns : HashSet RunId := (∅ : HashMap RunId Unit)
  rateObservationContext : Option (RateObservationOrigin × ℤ) := none
  /-- The snapshots sent to the subscribers, the latest first. -/
  published : List DomainModel := []
  deferProviderPublication : Bool := false
  deferProviderModelPublication : Bool := false
  providerModelPublicationPending : Bool := false
  deferredProviderDrain : Option HistoryDrainId := none
  providerObservationPrivateRunIds : HashSet RunId := (∅ : HashMap RunId Unit)
  pendingLiveProviderSubmission : Option PendingLiveProviderSubmission := none
  publishedHistoryDrains : HashSet HistoryDrainId := (∅ : HashMap HistoryDrainId Unit)
  /-- The next token for a live submission. -/
  nextProviderSubmissionToken : ℕ := 0
  /-- How long a run may be silent before it counts as inactive; a setting. -/
  headlessInactivityMs : ℤ := 600000

/-! ### Transactions -/

namespace Tx

def push (tx : Tx) (op : PersistOp) : Tx := { tx with persist := tx.persist ++ [op] }

def withModel (tx : Tx) (model : DomainModel) : Tx := { tx with model := model }

/-- Stores a run in the model and hands it to the store. -/
def storeRun (tx : Tx) (taskRun : TaskRun) (timestampMs : ℤ) : Tx :=
  let tx := tx.withModel (tx.model.insertTaskRun taskRun)
  tx.push (persistTaskRun tx.model taskRun timestampMs)

/-- Draws the next display ordinal. -/
def allocateOrdinal (tx : Tx) : Except ReducerFailure (DisplayOrdinal × Tx) :=
  if i64Max < tx.nextOrdinal + 1 then .error ⟨.ordinalExhausted, tx.toCore⟩
  else .ok (tx.nextOrdinal, { tx with nextOrdinal := tx.nextOrdinal + 1 })

/-- The display ordinal of a topology row, drawn when it has none. -/
def topologyOrdinalOrAllocate (tx : Tx) (kind : TopologyKind) (id : String) :
    Except ReducerFailure (DisplayOrdinal × Tx) :=
  match tx.model.topologyOrdinal kind id with
  | some ordinal => .ok (ordinal, tx)
  | none => do
    let (ordinal, tx) ← tx.allocateOrdinal
    .ok (ordinal, tx.withModel (tx.model.setTopologyOrdinal kind id ordinal))

end Tx

/-- Gives a new run its first times. -/
def stampNewTaskRun (taskRun : TaskRun) (timestampMs : ℤ) : TaskRun :=
  touchTaskRun { taskRun with createdAtMs := some (taskRun.createdAtMs.getD timestampMs) } timestampMs

end HerdrTop
