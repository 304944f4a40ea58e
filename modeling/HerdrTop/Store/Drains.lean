import HerdrTop.Store.Operations

/-!
# History drains

A drain reads the history of one provider up to a frozen manifest of artifacts. A run that a drain
contributed to is shown when every such drain is finalized; a finalized drain also finalizes the
older ones whose artifacts it covers.
-/

namespace HerdrTop

namespace Database

/-! ### Manifests -/

/-- The rows of a manifest, if it is well formed. -/
def manifestRows (drain : PersistHistoryDrain) : StoreResult (List (String × ArtifactRow)) :=
  drain.artifacts.foldlM (fun rows artifact => do
    if artifact.artifactId = "" ∨ artifact.generation = "" then
      .error (.invalid "history_drain_artifact" artifact.artifactId
        "artifact identity and generation must be non-empty")
    else if artifact.artifactId ∈ rows.map Prod.fst then
      .error (.invalid "history_drain_artifacts.artifact_id" artifact.artifactId
        "frozen manifest contains a duplicate artifact identity")
    else
      let goalpost ← signedCount "history_drain_artifacts.goalpost" artifact.goalpost
      return rows ++ [(artifact.artifactId, ⟨artifact.generation, goalpost⟩)]) []

/-- The manifest of a drain that is stored. -/
def storedManifest (db : Database) (drainId : HistoryDrainId) : List (String × ArtifactRow) :=
  (db.historyDrainArtifacts.toList.filter fun entry => entry.1.1 = drainId).map
    fun entry => (entry.1.2, entry.2)

/-- Adds a drain with its manifest; a drain that is known keeps both. -/
def upsertHistoryDrain (db : Database) (drain : PersistHistoryDrain) : StoreResult Database := do
  let incoming ← manifestRows drain
  match db.historyDrains.get drain.drainId with
  | some row =>
    if row.provider ≠ drain.provider then
      .error (.invalid "history_drains" drain.drainId.value
        "drain identity already names a different provider manifest")
    else if (db.storedManifest drain.drainId).isPerm incoming then return db
    else
      .error (.invalid "history_drain_artifacts" drain.drainId.value
        "drain identity already has a different frozen artifact set")
  | none =>
    let row : HistoryDrainRow := { provider := drain.provider, createdAtMs := drain.createdAtMs }
    let artifacts := incoming.map fun entry => ((drain.drainId, entry.1), entry.2)
    return { db with
      historyDrains := db.historyDrains.insert drain.drainId row
      historyDrainArtifacts := db.historyDrainArtifacts.extend artifacts }

/-! ### Completing a drain -/

/-- Every artifact of the older drain is an artifact of the newer one, of the same generation and
read at least as far. -/
def covers (db : Database) (newer older : HistoryDrainId) : Bool :=
  db.historyDrainArtifacts.toList.all fun entry =>
    entry.1.1 ≠ older || (db.historyDrainArtifacts.get (newer, entry.1.2)).any fun artifact =>
      artifact.generation = entry.2.generation && entry.2.goalpost ≤ artifact.goalpost

/-- Whether completing one drain completes another, older one. -/
def supersedes (db : Database) (newer : HistoryDrainId) (newerRow : HistoryDrainRow)
    (older : HistoryDrainId) (olderRow : HistoryDrainRow) : Bool :=
  olderRow.provider = newerRow.provider && olderRow.finalizedAtMs.isNone && older ≠ newer &&
    (olderRow.createdAtMs < newerRow.createdAtMs ||
      (olderRow.createdAtMs = newerRow.createdAtMs && older.value < newer.value)) &&
    db.covers newer older

/-- What the superseded drains contributed to. -/
def inheritAssociations (db : Database) (drainId : HistoryDrainId) (row : HistoryDrainRow) : Database :=
  let inherited := (HashMap.keys db.historyDrainRuns).filter fun association =>
    (db.historyDrains.get association.1).any (db.supersedes drainId row association.1)
  let copies := inherited.map fun association => (drainId, association.2)
  { db with historyDrainRuns := HashSet.extend db.historyDrainRuns copies }

/-- Finalizes a drain and those it supersedes. -/
def finalizeDrains (db : Database) (drainId : HistoryDrainId) (row : HistoryDrainRow)
    (observedAtMs : ℤ) : Database :=
  { db with historyDrains := db.historyDrains.mapValues fun id older =>
      if id = drainId || db.supersedes drainId row id older then
        { older with finalizedAtMs := some observedAtMs, completedByDrainId := some drainId }
      else older }

/-- What orders the end that a completed drain records. -/
def drainWatermark (drainId : HistoryDrainId) (observedAtMs : ℤ) (runId : RunId)
    (latestProviderAtMs : ℤ) : NativeLifecycleWatermark where
  sourceAtMs := latestProviderAtMs
  observedAtMs := observedAtMs
  sourceOrder := s!"history-drain:{drainId.value}:{runId.text}"

/-- The state of a run after its history has been read: a session that nobody ended and that no
execution keeps alive ended, nobody knows how, with its latest activity. -/
def closedState (db : Database) (drainId : HistoryDrainId) (observedAtMs : ℤ) (runId : RunId)
    (row : TaskRunRow) : TaskRunV6State :=
  match row.state.latestProviderAtMs with
  | none => row.state
  | some latestProviderAtMs =>
    let watermark := drainWatermark drainId observedAtMs runId latestProviderAtMs
    if !row.state.historyReady && !row.taskState.isTerminal && row.state.nativeSessionEnd.isNone &&
        !db.live runId && row.state.lifecycleWatermark.all (· < watermark) then
      { row.state with
        nativeSessionEnd := some ⟨.unknown, latestProviderAtMs⟩
        lifecycleWatermark := some watermark }
    else row.state

/-- Ends the sessions of the runs that a completed drain makes ready. -/
def closeSessions (db : Database) (drainId : HistoryDrainId) (observedAtMs : ℤ) : Database :=
  { db with taskRuns := db.taskRuns.mapValues fun runId row =>
      if row.mergedInto.isNone && db.associated drainId runId && !db.blocked runId && !db.live runId then
        { row with state := db.closedState drainId observedAtMs runId row }
      else row }

/-- Shows the runs of a completed drain that wait for no other one. -/
def readyRuns (db : Database) (drainId : HistoryDrainId) : Database :=
  { db with taskRuns := db.taskRuns.mapValues fun runId row =>
      if row.mergedInto.isNone && db.associated drainId runId then
        { row with state := { row.state with historyReady := row.state.historyReady || !db.blocked runId } }
      else row }

/-- Whether a run is known and shown. -/
def ready (db : Database) (runId : RunId) : Bool := (db.taskRuns.get runId).any (·.state.historyReady)

/-- Drops the before-images of runs that are shown. -/
def dropBeforeImages (db : Database) : Database :=
  { db with
    historyRunPublications := db.historyRunPublications.retain fun _ publication =>
      !db.ready publication.canonicalRunId
    historyEventBeforeImages := db.historyEventBeforeImages.retain fun image _ =>
      !db.events.any fun event => event.eventId = image.2 && event.taskRunId.any db.ready }

/-- Completes a drain that is not finalized. -/
def completeDrain (db : Database) (drainId : HistoryDrainId) (row : HistoryDrainRow)
    (observedAtMs : ℤ) : Database :=
  let db := db.inheritAssociations drainId row
  let db := db.finalizeDrains drainId row observedAtMs
  let db := db.closeSessions drainId observedAtMs
  let db := db.readyRuns drainId
  db.dropBeforeImages

/-- The result of a drain that is finalized. -/
def loadHistoryDrainFinalization (db : Database) (drainId : HistoryDrainId) :
    StoreResult HistoryDrainFinalization :=
  match (db.historyDrains.get drainId).bind (·.finalizedAtMs) with
  | none =>
    .error (.invalid "history_drains.finalized_at_ms" drainId.value "history drain is not finalized")
  | some finalizedAtMs =>
    let completed := (db.historyDrains.toList.filter fun entry =>
      entry.2.completedByDrainId = some drainId).map Prod.fst
    let runs := db.taskRuns.toList.filter fun entry =>
      db.associated drainId entry.1 && entry.2.mergedInto.isNone
    .ok {
      drainId
      finalizedAtMs
      completedDrains := completed.insertionSort fun left right => left.value ≤ right.value
      runs := (runs.map fun entry => ⟨entry.1, entry.2.state⟩).insertionSort
        fun left right => left.runId ≤ right.runId }

/-- Completes a drain, whether or not the store has heard of it. -/
def finalizeHistoryDrain (db : Database) (manifest : PersistHistoryDrain) (observedAtMs : ℤ) :
    StoreResult (Database × HistoryDrainFinalization) := do
  let db ← db.upsertHistoryDrain manifest
  match db.historyDrains.get manifest.drainId with
  | none =>
    .error (.invalid "history_drains.drain_id" manifest.drainId.value "history drain does not exist")
  | some row =>
    let db := if row.finalizedAtMs.isNone then db.completeDrain manifest.drainId row observedAtMs else db
    return (db, ← db.loadHistoryDrainFinalization manifest.drainId)

end Database

end HerdrTop
