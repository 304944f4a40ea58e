import HerdrTop.Store.Batch

/-!
# Retention

Old events, old ledger entries and runs that ended long ago are deleted, each run with everything that
belongs to it. A run is kept while a successor of it is active, and while it, or a run that it stands
for, waits for a drain.
-/

namespace HerdrTop

/-- How long events are kept: seven days. -/
def eventRetentionMs : ℤ := 7 * 24 * 60 * 60 * 1000

/-- How long runs are kept after their end: thirty days. -/
def runRetentionMs : ℤ := 30 * 24 * 60 * 60 * 1000

/-- How many events of one terminal session are kept. -/
def eventRingLimit : ℕ := 100000

/-- How many rows a retention pass removed. -/
structure CleanupStats where
  eventsEvicted : ℕ
  ledgerPruned : ℕ
  runsPruned : ℕ
  executionsPruned : ℕ
  agentNodesPruned : ℕ
  executionEdgesPruned : ℕ
  dependencyEdgesPruned : ℕ
  nativeSessionsPruned : ℕ
  displayOrdinalsPruned : ℕ
  /-- The ledger entries that were removed, by name. -/
  deletedLedgerEntries : List (String × ℤ)
  deriving DecidableEq

/-- When a run ended: its end or that of its session. -/
def TaskRunRow.endedAtMs (row : TaskRunRow) : Option ℤ :=
  row.finishedAtMs.or (row.state.nativeSessionEnd.map (·.atMs))

namespace Database

/-! ### Events -/

/-- How many events of its session come before an event, latest first. -/
def sessionRank (events : List (EventRow × ℕ)) (event : EventRow × ℕ) : ℕ :=
  (events.filter fun other => other.1.herdrSession = event.1.herdrSession &&
    (event.1.seenAtMs < other.1.seenAtMs ||
      (event.1.seenAtMs = other.1.seenAtMs && event.2 < other.2))).length

/-- The latest events of every session. -/
def latestEvents (events : List EventRow) : List EventRow :=
  (events.zipIdx.filter fun event => sessionRank events.zipIdx event < eventRingLimit).map Prod.fst

/-- The events that stay. -/
def keptEvents (db : Database) (cutoff : ℤ) : List EventRow :=
  latestEvents (db.events.filter fun event => cutoff ≤ event.seenAtMs)

/-- Deletes events, and the before-images of these events. -/
def deleteEvents (db : Database) (cutoff : ℤ) : Database :=
  let events := db.keptEvents cutoff
  { db with
    events
    historyEventBeforeImages := db.historyEventBeforeImages.retain fun image _ =>
      image.2 ∈ events.map (·.eventId) }

/-- The ledger entries that are old. -/
def oldLedgerEntries (db : Database) (cutoff : ℤ) : List (String × ℤ) :=
  (db.eventLedger.toList.filter fun entry => entry.2 < cutoff).insertionSort
    fun left right => left.1 ≤ right.1

def pruneLedger (db : Database) (cutoff : ℤ) : Database :=
  { db with eventLedger := db.eventLedger.retain fun _ seenAtMs => cutoff ≤ seenAtMs }

/-! ### Runs -/

/-- A run, the run that stands for it, and so on. -/
def lineage (db : Database) : ℕ → RunId → List RunId
  | 0, runId => [runId]
  | fuel + 1, runId => runId ::
    (match (db.taskRuns.get runId).bind (·.mergedInto) with
      | some target => db.lineage fuel target
      | none => [])

/-- No lineage without repetition has more steps. -/
def lineageFuel (db : Database) : ℕ := (HashMap.keys db.taskRuns).length

/-- Whether the run, or a run that it stands for, waits for a drain. -/
def isProtected (db : Database) (runId : RunId) : Bool :=
  (HashMap.keys db.historyDrainRuns).any fun association =>
    db.openDrain association.1 && decide (runId ∈ db.lineage db.lineageFuel association.2)

/-- Whether a run is known and has no end. -/
def active (db : Database) (runId : RunId) : Bool := (db.taskRuns.get runId).any (·.endedAtMs.isNone)

/-- Whether a canonical run is deleted. -/
def expired (db : Database) (cutoff : ℤ) (runId : RunId) (row : TaskRunRow) : Bool :=
  row.mergedInto.isNone && row.endedAtMs.any (· < cutoff) &&
    (db.executionEdges.keys.all fun edge => edge.parentRunId ≠ runId || !db.active edge.childRunId) &&
    (db.dependencyEdges.keys.all fun edge =>
      edge.prerequisiteRunId ≠ runId || !db.active edge.dependentRunId) &&
    !db.isProtected runId

/-- Whether a run is deleted: it expired, or the run that stands for it is deleted. -/
def doomed (db : Database) (cutoff : ℤ) : ℕ → RunId → Bool
  | fuel, runId =>
    match db.taskRuns.get runId with
    | none => false
    | some row =>
      match row.mergedInto, fuel with
      | none, _ => db.expired cutoff runId row
      | some target, fuel + 1 => !db.isProtected runId && db.doomed cutoff fuel target
      | some _, 0 => false

/-- The runs that are deleted. -/
def doomedRuns (db : Database) (cutoff : ℤ) : List RunId :=
  (HashMap.keys db.taskRuns).filter (db.doomed cutoff db.lineageFuel)

/-- Whether a run goes: it is deleted, or it refers to a run that goes. -/
def goes (db : Database) (doomedRuns : List RunId) (runId : RunId) : Bool :=
  (db.lineage db.lineageFuel runId).any (· ∈ doomedRuns)

/-- Deletes runs and everything that belongs to them. -/
def deleteRuns (db : Database) (doomedRuns : List RunId) : Database :=
  let goes := db.goes doomedRuns
  let doomedNodes := (db.agentNodes.toList.filter fun node => node.2.taskRunId ∈ doomedRuns).map Prod.fst
  { db with
    executionEdges := db.executionEdges.retain fun edge _ =>
      !goes edge.parentRunId && !goes edge.childRunId
    dependencyEdges := db.dependencyEdges.retain fun edge _ =>
      !goes edge.prerequisiteRunId && !goes edge.dependentRunId
    executions := db.executions.retain fun _ execution => !goes execution.taskRunId
    displayOrdinals := db.displayOrdinals.retain fun entity _ => match entity.1 with
      | .taskRun => entity.2 ∉ doomedRuns.map RunId.text
      | .agentNode => entity.2 ∉ doomedNodes
      | .topology _ => true
    agentNodes := db.agentNodes.retain fun _ node => !goes node.taskRunId
    taskRuns := db.taskRuns.retain fun runId _ => !goes runId
    runRateTotals := db.runRateTotals.retain fun runId _ => !goes runId
    historyDrainRuns := HashMap.retain (fun association _ => !goes association.2) db.historyDrainRuns
    historyRunPublications := db.historyRunPublications.retain fun _ publication =>
      !goes publication.canonicalRunId }

/-- Whether a run or an agent refers to a session. -/
def sessionReferenced (db : Database) (session : Provider × String) : Bool :=
  (db.taskRuns.values.any fun row => row.native = some ⟨session.1, session.2⟩) ||
    db.agentNodes.values.any fun node =>
      node.provider = session.1 && node.nativeSessionId = some session.2

/-- Deletes the sessions that nothing refers to. -/
def pruneSessions (db : Database) : Database :=
  { db with nativeAgentSessions :=
      HashMap.retain (fun session _ => db.sessionReferenced session) db.nativeAgentSessions }

/-- Deletes what is old. -/
def cleanupRetention (db : Database) (nowMs : ℤ) : Database × CleanupStats :=
  let eventCutoff := satSubI64 nowMs eventRetentionMs
  let runCutoff := satSubI64 nowMs runRetentionMs
  let pruned := (db.deleteEvents eventCutoff).pruneLedger eventCutoff
  let doomedRuns := pruned.doomedRuns runCutoff
  let deleted := pruned.deleteRuns doomedRuns
  let final := deleted.pruneSessions
  (final, {
    eventsEvicted := db.events.length - final.events.length
    ledgerPruned := (db.oldLedgerEntries eventCutoff).length
    runsPruned := doomedRuns.length
    executionsPruned := (db.executions.values.filter (·.taskRunId ∈ doomedRuns)).length
    agentNodesPruned := (db.agentNodes.values.filter (·.taskRunId ∈ doomedRuns)).length
    executionEdgesPruned := (db.executionEdges.keys.filter fun edge =>
      edge.parentRunId ∈ doomedRuns || edge.childRunId ∈ doomedRuns).length
    dependencyEdgesPruned := (db.dependencyEdges.keys.filter fun edge =>
      edge.prerequisiteRunId ∈ doomedRuns || edge.dependentRunId ∈ doomedRuns).length
    nativeSessionsPruned :=
      (HashMap.keys deleted.nativeAgentSessions).length - (HashMap.keys final.nativeAgentSessions).length
    displayOrdinalsPruned := db.displayOrdinals.keys.length - final.displayOrdinals.keys.length
    deletedLedgerEntries := db.oldLedgerEntries eventCutoff })

end Database

end HerdrTop
