import HerdrTop.Store.Drains

/-!
# Versioned batches

A versioned batch carries, besides its operations, the runs it touched with their states, rate totals,
drains, associations and before-images. The store first asks whether the batch is already durable, and
then skips it; otherwise the rows are seeded, the operations applied in their order, and the rows
settled.
-/

namespace HerdrTop

/-- The run that stands for a run after the merges of a batch. -/
def canonicalRunAfterOperations (runId : RunId) (operations : PersistBatch) : RunId :=
  operations.foldl (fun runId operation => match operation with
    | .mergeTaskRuns survivor absorbed => if absorbed = runId then survivor else runId
    | _ => runId) runId

/-- The row as an agent. -/
def AgentNodeRow.agentNode (row : AgentNodeRow) (agentNodeId : String) (displayOrdinal : DisplayOrdinal) :
    StoreResult AgentNode := do
  let state ← parseAgentNodeState row.state
  let lastItemCount ← optionalUnsignedCount "agent_nodes.last_item_count" row.lastItemCount
  let lastByteCount ← optionalUnsignedCount "agent_nodes.last_byte_count" row.lastByteCount
  return {
    agentNodeId
    provider := row.provider
    nativeSessionId := row.nativeSessionId
    taskRunId := row.taskRunId
    displayOrdinal
    parentAgentNodeId := row.parentAgentNodeId
    state
    modelId := row.modelId
    lastEventKind := row.lastEventKind
    lastToolName := row.lastToolName
    lastItemCount
    lastByteCount
    lastActivityAtMs := row.lastActivityAtMs
    sessionFile := row.sessionFile }

/-- What the text of a before-image keeps: telemetry, the kind of the run and the rate cursor are left out. -/
def HistoryRunPublication.serialized (publication : HistoryRunPublication) : HistoryRunPublication :=
  { publication with telemetry := none, runKind := none, rateCursor := none }

namespace Database

/-! ### Is a row durable? -/

def durableEventProjectionMatches (db : Database) (expected : EventRow) : Bool :=
  db.events.find? (·.eventId = expected.eventId) = some expected

def durableAgentNodeMatches (db : Database) (expected : AgentNode) : StoreResult Bool :=
  match db.agentNodes.get expected.agentNodeId,
      db.displayOrdinals.get (.agentNode, expected.agentNodeId) with
  | some row, some displayOrdinal => do
    return (← row.agentNode expected.agentNodeId displayOrdinal) = expected
  | _, _ => .ok false

def durableRunKeyAndTarget (db : Database) (runId : RunId) :
    StoreResult (Option (RunKey × Option RunId)) :=
  match db.taskRuns.get runId with
  | none => .ok none
  | some row => do return some (← decodeRunKey row.key.encode, row.mergedInto)

/-- The columns of a run that is stored as it was asked for. -/
def durableTaskRunV6Matches (db : Database) (expected : PersistTaskRunV6) : Bool :=
  match db.taskRuns.get expected.taskRun.taskRun.runId with
  | none => false
  | some row =>
    row.key = expected.taskRun.taskRun.key && row.mergedInto.isNone &&
      row.displayOrdinal = expected.taskRun.taskRun.displayOrdinal &&
      row.taskState = expected.taskRun.taskRun.state &&
      row.hasControllerTaskStateEvent = expected.taskRun.taskRun.hasControllerTaskStateEvent &&
      row.native = expected.taskRun.nativeSession &&
      row.createdAtMs = expected.taskRun.createdAtMs &&
      row.updatedAtMs = expected.taskRun.updatedAtMs &&
      row.finishedAtMs = endTime expected.taskRun &&
      row.subject = expected.taskRun.taskRun.subject &&
      row.dismissedAtMs = expected.taskRun.taskRun.dismissedAtMs &&
      row.state = expected.state

def durableHistoryDrainMatches (db : Database) (expected : PersistHistoryDrain) : StoreResult Bool :=
  match db.historyDrains.get expected.drainId with
  | none => .ok false
  | some row =>
    if row.provider ≠ expected.provider || row.createdAtMs ≠ expected.createdAtMs ||
        row.finalizedAtMs.isSome then .ok false
    else do
      let expectedArtifacts ← expected.artifacts.mapM fun artifact => do
        let goalpost ← signedCount "history_drain_artifacts.goalpost" artifact.goalpost
        return (artifact.artifactId, (⟨artifact.generation, goalpost⟩ : ArtifactRow))
      return (db.storedManifest expected.drainId).isPerm expectedArtifacts

/-! ### Is a batch durable? -/

/-- What is expected of the tables, from the operations of a batch that were looked at. -/
structure ReplayScan where
  hasIdentityOperation : Bool := false
  eventIds : List String := []
  events : List EventRow := []
  agentNodes : HashMap String AgentNode := ∅

/-- Looks at one operation; `none` if the batch cannot be a replay. -/
def scanOperation (db : Database) (batch : PersistV6Batch) (scan : ReplayScan) :
    PersistOp → StoreResult (Option ReplayScan)
  | .mergeTaskRuns survivor absorbed =>
    let finalSurvivor := canonicalRunAfterOperations survivor batch.operations
    if finalSurvivor ∉ batch.taskRuns.map (·.taskRun.taskRun.runId) ||
        canonicalRunAfterOperations absorbed batch.operations ≠ finalSurvivor then .ok none
    else do
      let target (party : RunId) : Option RunId := if party ≠ finalSurvivor then some finalSurvivor else none
      let durableSurvivor ← db.durableRunKeyAndTarget survivor
      let durableAbsorbed ← db.durableRunKeyAndTarget absorbed
      if durableSurvivor.map (·.2) = some (target survivor) &&
          durableAbsorbed.map (·.2) = some (target absorbed) then
        return some { scan with hasIdentityOperation := true }
      else return none
  | .promoteTaskRunKey promoted oldKey aliasRunId =>
    if promoted.taskRun.runId ∉ batch.taskRuns.map (·.taskRun.taskRun.runId) then .ok none
    else do
      let canonical ← db.durableRunKeyAndTarget promoted.taskRun.runId
      let aliased ← db.durableRunKeyAndTarget aliasRunId
      if canonical = some (promoted.taskRun.key, none) &&
          aliased = some (oldKey, some promoted.taskRun.runId) then
        return some { scan with hasIdentityOperation := true }
      else return none
  | .recordEvent event seenAtMs =>
    let metadata := (eventMetadata event).1
    if metadata.eventId ∈ scan.eventIds then .ok none
    else do
      let canonicalRunId := metadata.taskRunId.map (canonicalRunAfterOperations · batch.operations)
      let row ← relationalEventProjection event seenAtMs batch.historyEventDrain canonicalRunId
      return some { scan with
        eventIds := scan.eventIds ++ [metadata.eventId]
        events := scan.events ++ [row] }
  | .upsertAgentNode node =>
    .ok (some { scan with agentNodes := scan.agentNodes.insert node.agentNodeId node })
  | .upsertTaskRun run =>
    if canonicalRunAfterOperations run.taskRun.runId batch.operations ∈
        batch.taskRuns.map (·.taskRun.taskRun.runId) then .ok (some scan)
    else .ok none
  | _ => .ok none

/-- Looks at the operations until one shows that the batch is no replay. -/
def scanOperations (db : Database) (batch : PersistV6Batch) :
    ReplayScan → PersistBatch → StoreResult (Option ReplayScan)
  | scan, [] => .ok (some scan)
  | scan, operation :: operations => do
    match ← db.scanOperation batch scan operation with
    | none => return none
    | some scan => db.scanOperations batch scan operations

/-- Whether the check holds of every item; the first failure ends it. -/
def allDurable {α : Type} (check : α → StoreResult Bool) : List α → StoreResult Bool
  | [] => .ok true
  | item :: items => do
    if ← check item then allDurable check items else return false

/-- Whether an agent is durable, under the run that stands for its run after the batch. -/
def scannedAgentNodeMatches (db : Database) (batch : PersistV6Batch) (node : AgentNode) :
    StoreResult Bool :=
  let node := { node with taskRunId := canonicalRunAfterOperations node.taskRunId batch.operations }
  if node.taskRunId ∉ batch.taskRuns.map (·.taskRun.taskRun.runId) then .ok false
  else db.durableAgentNodeMatches node

def durablePublicationMatches (db : Database) (publication : HistoryRunPublication) : Bool :=
  db.historyRunPublications.get publication.taskRun.runId =
    some ⟨publication.canonicalRunId, publication.serialized⟩

def durableRateTotalsMatch (db : Database) (entry : RunId × RunRateTotals) : Bool :=
  db.runRateTotals.get entry.1 = some entry.2.clamped.1

/-- Whether a batch without an ingest sequence, that merges or promotes, left everything it asks for. -/
def exactNonIngestIdentityReplayIsAlreadyDurable (db : Database) (batch : PersistV6Batch) :
    StoreResult Bool := do
  if batch.operations.any (fun operation => operation matches .advanceIngestSequence _) then return false
  else if ¬ (batch.taskRuns.map (·.taskRun.taskRun.runId)).Nodup then return false
  else
    match ← db.scanOperations batch {} batch.operations with
    | none => return false
    | some scan =>
      if !scan.hasIdentityOperation then return false
      else if !(← allDurable (db.scannedAgentNodeMatches batch) scan.agentNodes.values) then return false
      else if !scan.events.all db.durableEventProjectionMatches then return false
      else if !batch.taskRuns.all db.durableTaskRunV6Matches then return false
      else if !(← allDurable db.durableHistoryDrainMatches batch.historyDrains) then return false
      else
        return (batch.historyAssociations.all fun association =>
            db.associated association.drainId association.runId) &&
          batch.historyPublications.all db.durablePublicationMatches &&
          batch.rateTotals.all db.durableRateTotalsMatch &&
          batch.historyEventDrain.all db.openDrain

/-- The name of the event that an operation records and its ingest sequence, if it fits a column. -/
def recordedEvent : PersistOp → Option (String × Option ℤ)
  | .recordEvent event _ =>
    let metadata := (eventMetadata event).1
    let ingestSeq := metadata.ingestSeq.bind fun value =>
      if (value : ℤ) ≤ i64Max then some (value : ℤ) else none
    some (metadata.eventId, ingestSeq)
  | _ => none

/-- Whether a batch is known to be durable; a batch that begins with an ingest sequence is if its events
are those of the sequence. -/
def exactV6ReplayIsAlreadyDurable (db : Database) (batch : PersistV6Batch) : StoreResult Bool :=
  match batch.operations with
  | .advanceIngestSequence ingestSeq :: operations =>
    let recorded := operations.filterMap recordedEvent
    let eventIds := recorded.map Prod.fst
    let durableEventIds := (db.events.filter (·.ingestSeq = some ingestSeq)).map (·.eventId)
    .ok (!(operations.any fun operation => operation matches .advanceIngestSequence _) &&
      ingestSeq ≤ db.ingestSeqHighWater && recorded.all (·.2 = some ingestSeq) &&
      decide eventIds.Nodup && !eventIds.isEmpty &&
      durableEventIds.all (· ∈ eventIds) && eventIds.all (· ∈ durableEventIds))
  | _ => db.exactNonIngestIdentityReplayIsAlreadyDurable batch

/-! ### Runs with their states -/

/-- The row of a run that is shown and is stored again as not shown: what is shown stands. -/
def preservedSemantics (stored row : TaskRunRow) : TaskRunRow :=
  { row with
    taskState := stored.taskState
    hasControllerTaskStateEvent := stored.hasControllerTaskStateEvent
    updatedAtMs := stored.updatedAtMs
    finishedAtMs := stored.finishedAtMs
    subject := stored.subject
    dismissedAtMs := stored.dismissedAtMs }

/-- The state of a run that is stored again: the later lifecycle stands, and so does the stored one where
they are equal; a run that is shown stays shown. -/
def upsertedV6State (incoming stored : TaskRunV6State) : TaskRunV6State :=
  let earlier := match incoming.lifecycleWatermark, stored.lifecycleWatermark with
    | none, _ => true
    | some incoming, some stored => decide (incoming ≤ stored)
    | some _, none => false
  { nativeSessionEnd := if earlier then stored.nativeSessionEnd else incoming.nativeSessionEnd
    lifecycleWatermark := if earlier then stored.lifecycleWatermark else incoming.lifecycleWatermark
    historyReady := incoming.historyReady || stored.historyReady
    latestProviderAtMs := match incoming.latestProviderAtMs, stored.latestProviderAtMs with
      | some left, some right => some (max left right)
      | some left, none => some left
      | none, right => right }

/-- Stores a run with its state. -/
def upsertTaskRunV6 (db : Database) (persisted : PersistTaskRunV6) : StoreResult Database := do
  let runId := persisted.taskRun.taskRun.runId
  if persisted.state.nativeSessionEnd.isSome && persisted.state.lifecycleWatermark.isNone then
    .error (.invalid "native_session_end" runId.text "session-end evidence requires a lifecycle watermark")
  else if persisted.state.lifecycleWatermark.any (·.sourceOrder = "") then
    .error (.invalid "lifecycle_source_order" "" "lifecycle source order cannot be empty")
  else
    let existing := db.taskRuns.get runId
    let db ← db.upsertTaskRun persisted.taskRun
    let settle (row : TaskRunRow) : TaskRunRow :=
      match existing with
      | none => { row with state := persisted.state }
      | some stored =>
        let row := if stored.state.historyReady && !persisted.state.historyReady then
          preservedSemantics stored row else row
        { row with state := upsertedV6State persisted.state stored.state }
    return db.modifyRun runId settle

/-- Sets the totals of a run. -/
def upsertRunRateTotals (db : Database) (entry : RunId × RunRateTotals) : StoreResult Database := do
  constraint (db.taskRuns.contains entry.1)
  return { db with runRateTotals := db.runRateTotals.insert entry.1 entry.2.clamped.1 }

/-! ### The batch -/

/-- The survivors of the merges of a batch, after all of them. -/
def finalMergeSurvivors (operations : PersistBatch) : List RunId :=
  operations.filterMap fun operation => match operation with
    | .mergeTaskRuns survivor _ => some (canonicalRunAfterOperations survivor operations)
    | _ => none

/-- The key that the first promotion of a run starts from. -/
def promotionSource (runId : RunId) (operations : PersistBatch) : Option RunKey :=
  operations.findSome? fun operation => match operation with
    | .promoteTaskRunKey promoted oldKey _ => if promoted.taskRun.runId = runId then some oldKey else none
    | _ => none

/-- A run as it is stored before the operations: under the key that they promote, and without the
session that they may transfer. -/
def seedOf (operations : PersistBatch) (run : PersistTaskRunV6) : PersistTaskRunV6 :=
  let runId := run.taskRun.taskRun.runId
  let promoted := match promotionSource runId operations with
    | some oldKey =>
      { run.taskRun with taskRun := { run.taskRun.taskRun with key := oldKey }, nativeSession := none }
    | none => run.taskRun
  let seeded := if runId ∈ finalMergeSurvivors operations then { promoted with nativeSession := none }
    else promoted
  { run with taskRun := seeded }

/-- Stores a run that is not stored, so that other rows may name it. -/
def seedTaskRun (operations : PersistBatch) (db : Database) (run : PersistTaskRunV6) :
    StoreResult Database :=
  if db.taskRuns.contains run.taskRun.taskRun.runId then .ok db
  else db.upsertTaskRunV6 (seedOf operations run)

/-- Keeps a before-image, unless the run has one. -/
def insertPublication (db : Database) (publication : HistoryRunPublication) : StoreResult Database := do
  if db.historyRunPublications.contains publication.taskRun.runId then return db
  else
    constraint (db.taskRuns.contains publication.canonicalRunId)
    let row : PublicationRow := ⟨publication.canonicalRunId, publication.serialized⟩
    return { db with historyRunPublications :=
      db.historyRunPublications.insert publication.taskRun.runId row }

/-- Whether a before-image is kept for a run. -/
def published (db : Database) (runId : RunId) : Bool :=
  db.historyRunPublications.values.any (·.canonicalRunId = runId)

/-- Hides a run, unless it is shown and nothing else could be shown for it. -/
def hideRun (db : Database) (historical : Bool) (runId : RunId) (row : TaskRunRow) : TaskRunRow :=
  if historical || !row.state.historyReady || db.published runId then
    { row with state := { row.state with historyReady := false } }
  else row

/-- Records that a drain contributed to a run, and hides the run. -/
def insertAssociation (historical : Bool) (db : Database) (association : PersistHistoryDrainRun) :
    StoreResult Database := do
  if db.associated association.drainId association.runId then return db
  else if db.finalizedDrain association.drainId then
    .error (.invalid "history_drain_runs" s!"{association.drainId.value}:{association.runId.text}"
      "cannot add an association after the history drain is finalized")
  else
    constraint (db.historyDrains.contains association.drainId && db.taskRuns.contains association.runId)
    let historyDrainRuns := HashSet.insert db.historyDrainRuns (association.drainId, association.runId)
    let db := { db with historyDrainRuns }
    return db.modifyRun association.runId (db.hideRun historical association.runId)

/-- Hides the runs that wait for a drain. -/
def hideBlockedRuns (db : Database) (historical : Bool) : Database :=
  { db with taskRuns := db.taskRuns.mapValues fun runId row =>
      if db.blocked runId then db.hideRun historical runId row else row }

/-- The drain that the events of a batch belong to is stored. -/
def requireEventDrain (db : Database) (historyEventDrain : Option HistoryDrainId) : StoreResult Unit :=
  match historyEventDrain with
  | none => .ok ()
  | some drainId =>
    if db.historyDrains.contains drainId then .ok ()
    else .error (.invalid "events.history_drain_id" drainId.value
      "historical events require a durable drain manifest in the same transaction or an earlier one")

/-- The runs that a live batch shows. -/
def liveReadyRuns (batch : PersistV6Batch) : List RunId :=
  if batch.historyEventDrain.isNone then
    (batch.taskRuns.filter (·.state.historyReady)).map (·.taskRun.taskRun.runId)
  else []

/-- Drops the before-images of runs. -/
def releasePublications (db : Database) (runIds : List RunId) : Database :=
  { db with historyRunPublications := db.historyRunPublications.retain fun _ publication =>
      publication.canonicalRunId ∉ runIds }

/-- Stores a batch that is not durable. -/
def commitV6Batch (db : Database) (batch : PersistV6Batch) : StoreResult Database := do
  let db ← batch.taskRuns.foldlM (seedTaskRun batch.operations) db
  let db ← batch.historyDrains.foldlM upsertHistoryDrain db
  db.requireEventDrain batch.historyEventDrain
  let db ← batch.historyPublications.foldlM insertPublication db
  let db ← batch.operations.foldlM (applyOperation batch.historyEventDrain) db
  let db ← batch.taskRuns.foldlM upsertTaskRunV6 db
  let db := db.releasePublications (liveReadyRuns batch)
  let db ← batch.rateTotals.foldlM upsertRunRateTotals db
  let db ← batch.historyAssociations.foldlM (insertAssociation batch.historyEventDrain.isSome) db
  return db.hideBlockedRuns batch.historyEventDrain.isSome

/-- Stores a batch, unless it is durable. -/
def applyV6Batch (db : Database) (batch : PersistV6Batch) : StoreResult Database := do
  if ← db.exactV6ReplayIsAlreadyDurable batch then return db else db.commitV6Batch batch

end Database

end HerdrTop
