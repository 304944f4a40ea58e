import HerdrTop.Provider.Synthesis
import HerdrTop.Provider.Tail

/-!
# The worker that reads provider logs

A cycle of the worker first parses the records that wait from the last cycle, then looks for files, and
parses what the tails give, record by record. A record is parsed on copies: when one of its events does not
fit into the pending buffer, the lane, the admission and the ordinals become what they were, the record stays
in front of the queue, and the cycle ends.

How a record is read (the JSON of the two providers) is a parameter, and so are the digest that names an
artifact and the answers of the file system. Which files a cycle visits, and in which order, is left open: a
step of a cycle is any of the tasks below. So the resume cursor and the availability sweeps, which only decide
what is visited next and what is reported about sources, are left out.
-/

namespace HerdrTop

/-- The path below a path. -/
def ArtifactPath.joinRelative (path relative : ArtifactPath) : ArtifactPath :=
  ⟨path.components ++ relative.components⟩

/-- A file that discovery found. -/
structure DiscoveredFile where
  root : ArtifactPath
  relativePath : ArtifactPath
  modifiedMs : ℤ
  pathId : ℕ
  deriving DecidableEq

def DiscoveredFile.absolute (file : DiscoveredFile) : ArtifactPath := file.root.joinRelative file.relativePath

/-- A file that a cycle reads. -/
structure AdapterWorkItem where
  provider : Provider
  root : ArtifactPath
  file : DiscoveredFile
  deriving DecidableEq

/-- How records are read. -/
structure RecordReader (Discovery : Type) where
  /-- The events of the adapter of the provider. -/
  parseAdapterRecord : Discovery → AdapterWorkItem → TailRecord → List ProviderEvent
  /-- The facts of a record with its ordinal; `none` if it is no text or its file is of no scope. -/
  extractLine : AdapterWorkItem → ℕ → TailRecord → Option (List LogFact)
  /-- What is known of a file before its records are read. -/
  bootstrapEvent : AdapterWorkItem → ℕ → ℤ → Option ProviderEvent
  /-- The name of an artifact in the manifests of drains. -/
  stableHistoryArtifactId : ArtifactPath → String

/-- The state of the worker. -/
structure AdapterProviderWorker (Discovery : Type) where
  discovery : Discovery
  tails : HashMap ℕ TailFile := ∅
  bootstrapEmitted : HashSet ℕ := ∅
  metaEmitted : HashSet ℕ := ∅
  /-- For each file, its generation and the ordinal of the next record. -/
  recordOrdinals : HashMap ℕ (ℕ × ℕ) := ∅
  logAdmission : Admission
  admissionIndex : AdmissionIndex := {}
  synthesis : Synthesis
  /-- The highest generation seen at a path. -/
  generations : HashMap ArtifactPath ℕ := ∅
  deferred : List ProviderEvent := []
  /-- The records that were read and are not merged yet. -/
  deferredRecords : List (AdapterWorkItem × TailRecord) := []
  historyManifests : HashMap Provider PersistHistoryDrain := ∅
  historyCompleted : HashSet Provider := ∅
  historyFailed : HashSet Provider := ∅
  invalidatedHistoryArtifacts : HashSet (Provider × String) := ∅
  heldHistoryBarrier : Option (Provider × HistoryDrainBarrier) := none

/-- Merges events with one origin, all or none. The copies share the counters. -/
def mergeOriginatedEventsAtomic (events : List ProviderEvent) (pending : PendingEvents)
    (origin : ObservationOrigin) (historyManifest : Option PersistHistoryDrain) : PendingEvents × Bool :=
  go events pending
where
  /-- Merges into the copy. -/
  go : List ProviderEvent → PendingEvents → PendingEvents × Bool
    | [], trial => (trial, true)
    | event :: events, trial =>
      match trial.mergeWithOrigin ⟨event, origin, historyManifest⟩ with
      | (trial, .atCapacity _) => ({ pending with diagnostics := trial.diagnostics }, false)
      | (trial, _) => go events trial

/-- Merges the events that earlier cycles could not. -/
def drainDeferredProviderEvents : List ProviderEvent → PendingEvents → List ProviderEvent × PendingEvents × Bool
  | [], pending => ([], pending, true)
  | event :: deferred, pending =>
    match pending.merge event with
    | (pending, .atCapacity event) => (event :: deferred, pending, false)
    | (pending, _) => drainDeferredProviderEvents deferred pending

namespace AdapterProviderWorker

variable {Discovery : Type} (reader : RecordReader Discovery) (w : AdapterProviderWorker Discovery)

def historyManifestForOrigin : ObservationOrigin → Option PersistHistoryDrain
  | .live => none
  | .historical drainId _ => w.historyManifests.values.find? fun manifest => manifest.drainId = drainId

/-- Gives up the drain of a provider: what it started is forgotten. -/
def abandonHistoryDrain (provider : Provider) : AdapterProviderWorker Discovery :=
  let synthesis := match w.historyManifests.get provider with
    | some manifest => manifest.artifacts.foldl
        (fun s artifact => s.abandonOrigin (.historical manifest.drainId artifact.artifactId)) w.synthesis
    | none => w.synthesis
  { w with
    historyFailed := w.historyFailed.insert provider
    historyManifests := w.historyManifests.remove provider
    synthesis
    heldHistoryBarrier := w.heldHistoryBarrier.filter fun held => held.1 ≠ provider }

/-- Where a record of a file comes from, or the file itself. -/
def recordOrigin (item : AdapterWorkItem) (record : Option TailRecord) :
    ObservationOrigin × Option PersistHistoryDrain :=
  match w.historyManifests.get item.provider with
  | none => (.live, none)
  | some manifest =>
    let artifactId := reader.stableHistoryArtifactId (item.root.joinRelative item.file.relativePath)
    if w.invalidatedHistoryArtifacts.contains (item.provider, artifactId) then (.live, none)
    else
      match manifest.artifacts.find? fun artifact => artifact.artifactId = artifactId with
      | none => (.live, none)
      | some artifact =>
        if record.any fun record => artifact.goalpost ≤ record.offset then (.live, none)
        else (.historical manifest.drainId artifactId, some manifest)

/-- Merges synthesized events into a copy of the buffer until one does not fit. An event that was
synthesized earlier keeps the origin it had then. -/
def mergeSynthesized (fallback : ObservationOrigin) :
    List ProviderEvent → Synthesis → PendingEvents → Synthesis × PendingEvents × Bool
  | [], synthesis, trial => (synthesis, trial, true)
  | event :: events, synthesis, trial =>
    let (synthesis, taken) := synthesis.takeLifecycleOrigin event
    let origin := taken.getD fallback
    match trial.mergeWithOrigin ⟨event, origin, w.historyManifestForOrigin origin⟩ with
    | (trial, .atCapacity _) => (synthesis, trial, false)
    | (trial, _) => mergeSynthesized fallback events synthesis trial

/-- Emits what is due at a time, all or nothing. -/
def emitDueLifecycleEvents (nowMs : ℤ) (pending : PendingEvents) :
    AdapterProviderWorker Discovery × PendingEvents × Bool :=
  let (synthesis, events) := w.synthesis.advanceLifecycle nowMs
  match w.mergeSynthesized .live (events.map (·.event)) synthesis pending with
  | (synthesis, trial, true) => ({ w with synthesis }, trial, true)
  | (_, trial, false) => (w, { pending with diagnostics := trial.diagnostics }, false)

/-- The generation and the next ordinal of a file when a record comes. -/
def ordinalState (record : TailRecord) (pathId : ℕ) : ℕ × ℕ :=
  let state := (w.recordOrdinals.get pathId).getD (record.generation, 0)
  if state.1 ≠ record.generation then (record.generation, 0) else state

/-- The ordinal that a record gets. -/
def recordOrdinal (item : AdapterWorkItem) (record : TailRecord) : Option ℕ :=
  if record.errorCode.isSome then none else some (w.ordinalState record item.file.pathId).2

/-- Parses a record: the events of the adapter, and those that the lane synthesizes from its facts. -/
def parseRecord (item : AdapterWorkItem) (record : TailRecord) (origin : ObservationOrigin) :
    AdapterProviderWorker Discovery × List ProviderEvent :=
  let events := reader.parseAdapterRecord w.discovery item record
  if record.errorCode.isSome then (w, events)
  else
    let (generation, ordinal) := w.ordinalState record item.file.pathId
    let w := { w with
      recordOrdinals := w.recordOrdinals.insert item.file.pathId (generation, satAddU64 ordinal 1) }
    match reader.extractLine item ordinal record with
    | none => (w, events)
    | some facts =>
      let (synthesis, logAdmission, synthesized) :=
        w.synthesis.synthesizeBatch item.file.absolute (facts.map fun fact => (ordinal, fact))
          w.logAdmission w.admissionIndex origin
      ({ w with synthesis, logAdmission }, events ++ synthesized.map (·.event))

/-- The events of a record, as it would be parsed now. -/
def recordEvents (item : AdapterWorkItem) (record : TailRecord) : List ProviderEvent :=
  (w.parseRecord reader item record (w.recordOrigin reader item (some record)).1).2

def isMalformed : ProviderEvent → Bool
  | .malformed _ _ _ _ _ => true
  | _ => false

/-- Parses the record in front and merges its events, all or none. -/
def mergeRecord (item : AdapterWorkItem) (record : TailRecord) (pending : PendingEvents) :
    AdapterProviderWorker Discovery × PendingEvents × Bool :=
  let origin := (w.recordOrigin reader item (some record)).1
  let (parsed, events) := w.parseRecord reader item record origin
  match parsed.mergeSynthesized origin events parsed.synthesis pending with
  | (_, trial, false) =>
    ({ parsed with
        synthesis := w.synthesis
        logAdmission := w.logAdmission
        recordOrdinals := w.recordOrdinals },
      { pending with diagnostics := trial.diagnostics }, false)
  | (synthesis, trial, true) =>
    let merged := { parsed with
      synthesis
      deferredRecords := parsed.deferredRecords.tail }
    (if events.any isMalformed then merged.abandonHistoryDrain item.provider else merged, trial, true)

/-- Merges the records that wait, until one does not fit; each round takes one away. -/
def drainDeferredRecords : ℕ → AdapterProviderWorker Discovery → PendingEvents →
    AdapterProviderWorker Discovery × PendingEvents × Bool
  | 0, w, pending => (w, pending, w.deferredRecords.isEmpty)
  | fuel + 1, w, pending =>
    match w.deferredRecords with
    | [] => (w, pending, true)
    | (item, record) :: _ =>
      match w.mergeRecord reader item record pending with
      | (w, pending, true) => drainDeferredRecords fuel w pending
      | (w, pending, false) => (w, pending, false)

/-- Puts the barrier of a drain into the buffer. -/
def enqueueHistoryBarrier (provider : Provider) (nowMs : ℤ) (acknowledgement : ℕ) (pending : PendingEvents) :
    AdapterProviderWorker Discovery × PendingEvents :=
  match w.historyManifests.get provider with
  | none => (w, pending)
  | some manifest =>
    let barrier : HistoryDrainBarrier := ⟨manifest, nowMs, acknowledgement⟩
    match pending.merge (.sourceState provider (.historyDrainBarrier barrier)) with
    | (pending, .atCapacity _) => (w, pending)
    | (pending, _) => ({ w with heldHistoryBarrier := some (provider, barrier) }, pending)

/-- Completes the drain whose barrier was acknowledged. -/
def settleHistoryBarrier : AdapterProviderWorker Discovery :=
  match w.heldHistoryBarrier with
  | none => w
  | some (provider, _) => { w with
      historyCompleted := w.historyCompleted.insert provider
      historyManifests := w.historyManifests.remove provider
      heldHistoryBarrier := none }

/-- Gives up the drain of a file that cannot be read any more. -/
def abandonHistorical (item : AdapterWorkItem) : AdapterProviderWorker Discovery :=
  match (w.recordOrigin reader item none).1 with
  | .historical _ _ => w.abandonHistoryDrain item.provider
  | .live => w

/-- Raises the generation that is known of a path. -/
def raiseGeneration (path : ArtifactPath) (generation : ℕ) : AdapterProviderWorker Discovery :=
  { w with
    generations := w.generations.insert path (max ((w.generations.get path).getD generation) generation) }

/-- Forgets a file that a scan did not find any more. -/
def removePath (provider : Provider) (pathId : ℕ) (path : ArtifactPath) : AdapterProviderWorker Discovery :=
  let w := match w.tails.get pathId with
    | none => w
    | some tail =>
      let w := { w with tails := w.tails.remove pathId }
      let artifactId := reader.stableHistoryArtifactId path
      let named := (w.historyManifests.get provider).any fun (manifest : PersistHistoryDrain) =>
        manifest.artifacts.any fun artifact => artifact.artifactId = artifactId
      let w := if named then
          { w with
            invalidatedHistoryArtifacts := w.invalidatedHistoryArtifacts.insert (provider, artifactId)
          }.abandonHistoryDrain provider
        else w
      w.raiseGeneration path tail.generation
  { w with
    bootstrapEmitted := w.bootstrapEmitted.remove pathId
    metaEmitted := w.metaEmitted.remove pathId
    recordOrdinals := w.recordOrdinals.remove pathId }

/-- Reads the description of a subagent, once it is merged never again. -/
def visitMeta (item : AdapterWorkItem) (fact : Option LogFact) (pending : PendingEvents) :
    AdapterProviderWorker Discovery × PendingEvents × Bool :=
  match fact with
  | none => (w, pending, true)
  | some fact =>
    if w.metaEmitted.contains item.file.pathId then (w, pending, true)
    else
      let origin := (w.recordOrigin reader item none).1
      let (synthesis, logAdmission, events) := w.synthesis.synthesizeBatch item.file.absolute [(0, fact)]
        w.logAdmission w.admissionIndex origin
      match w.mergeSynthesized origin (events.map (·.event)) synthesis pending with
      | (synthesis, trial, true) =>
        ({ w with
            synthesis
            logAdmission
            metaEmitted := w.metaEmitted.insert item.file.pathId }, trial, true)
      | (_, trial, false) => (w, { pending with diagnostics := trial.diagnostics }, false)

/-- Opens the tail of a file at its beginning, in a generation of its own; `none` for a file that cannot be
opened. No file is known before, so that the offset is zero and the ordinals begin at zero. -/
def openTail (item : AdapterWorkItem) (snapshot : Option FileSnapshot) : AdapterProviderWorker Discovery :=
  if w.tails.contains item.file.pathId then w
  else
    let generation := (w.generations.get item.file.absolute).elim 0 fun generation => satAddU64 generation 1
    let w := { w with generations := w.generations.insert item.file.absolute generation }
    match snapshot with
    | none => w.abandonHistorical reader item
    | some snapshot =>
      let tail := TailFile.open snapshot false generation
      { w with
        recordOrdinals := w.recordOrdinals.insert item.file.pathId (tail.generation, 0)
        tails := w.tails.insert item.file.pathId tail }

/-- Freezes the goalpost of a file. -/
def cycleGoalpost (item : AdapterWorkItem) (boundary : ReadBoundary) : AdapterProviderWorker Discovery :=
  match w.tails.get item.file.pathId with
  | none => w
  | some tail =>
    let (tail, goalpost) := tail.cycleGoalpost boundary
    let w := { w with tails := w.tails.insert item.file.pathId tail }
    if goalpost.isNone then w.abandonHistorical reader item else w

/-- Reports a file before its records are read. -/
def bootstrap (item : AdapterWorkItem) (nowMs : ℤ) (pending : PendingEvents) :
    AdapterProviderWorker Discovery × PendingEvents × Bool :=
  match w.tails.get item.file.pathId with
  | none => (w, pending, true)
  | some tail =>
    if w.bootstrapEmitted.contains item.file.pathId then (w, pending, true)
    else
      let (origin, manifest) := w.recordOrigin reader item none
      let merged := match reader.bootstrapEvent item tail.generation nowMs with
        | none => (pending, true)
        | some event => mergeOriginatedEventsAtomic [event] pending origin manifest
      if merged.2 then
        ({ w with bootstrapEmitted := w.bootstrapEmitted.insert item.file.pathId }, merged.1, true)
      else (w, merged.1, false)

/-- Polls a file up to a goalpost and queues the records. -/
def pollTail (item : AdapterWorkItem) (boundary : ReadBoundary) (goalpost : ℕ) :
    AdapterProviderWorker Discovery × List TailRecord :=
  match w.tails.get item.file.pathId with
  | none => (w, [])
  | some tail =>
    let (tail, records) := tail.pollToGoalpost boundary goalpost
    let w := { w with tails := w.tails.insert item.file.pathId tail }.raiseGeneration item.file.absolute
      tail.generation
    match records with
    | none => (w.abandonHistorical reader item, [])
    | some records =>
      ({ w with deferredRecords := w.deferredRecords ++ records.map fun record => (item, record) }, records)

/-- What a stopping worker still sends, past the buffer. -/
def gracefulStop (committed : Bool) : AdapterProviderWorker Discovery × List ScopedEvent :=
  let w := if committed then w.settleHistoryBarrier else w
  if w.heldHistoryBarrier.isSome || !w.historyManifests.keys.isEmpty || !w.historyFailed.keys.isEmpty then
    (w, [])
  else
    let (synthesis, events) := w.synthesis.flushPendingCompletes
    ({ w with synthesis }, events)

end AdapterProviderWorker

end HerdrTop
