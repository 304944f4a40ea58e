import HerdrTop.Herdr.ProviderWorker
import HerdrTop.Library.Runs
import HerdrTop.Provider.TailLines

/-!
# Back-pressure on the provider worker

A run of the worker: cycles in which records are polled and merged, flushes of the buffer between cycles,
and a stop. A cycle goes on only when no record waits, so that nothing that the parsing of a record reads
changes between two attempts at it.

## What is proved

* `mergeRecord_refused`: what a refusal restores is the whole worker.
* `WorkerState.Sound`: when the queue is empty, and which generation its records have.
* `Counted`: the ordinals count the records that carry no error.
* `provider_backpressure`: exactly once, in order, with the ordinals, over every run.
* `ordinals_skip_errors`: a line that is too long is not counted.
-/

namespace HerdrTop

/-! ### The system -/

/-- Where the worker stands. -/
inductive WorkerStage
  /-- Between two cycles. -/
  | waiting
  /-- In a cycle that merges the records that wait. -/
  | draining
  /-- In a cycle, with no record waiting. -/
  | working
  | stopped
  deriving DecidableEq

/-- The worker and the buffer it merges into. -/
structure WorkerState (Discovery : Type) where
  worker : AdapterProviderWorker Discovery
  pending : PendingEvents
  stage : WorkerStage

/-- What is to be seen of a step. -/
inductive WorkerLabel
  /-- The tail of a file was opened. -/
  | opened (pathId : ℕ)
  /-- A record was read. -/
  | polled (item : AdapterWorkItem) (record : TailRecord)
  /-- The events of a record were merged, which was given an ordinal if it carries no error. -/
  | merged (item : AdapterWorkItem) (record : TailRecord) (ordinal : Option ℕ) (events : List ProviderEvent)
  /-- The events of a record did not fit. -/
  | refused (item : AdapterWorkItem) (record : TailRecord)
  deriving DecidableEq

/-- What a cycle does while no record waits. -/
inductive WorkerTask (Discovery : Type)
  | beginPaneCycle
  | admitPaneSession (provider : Provider) (sessionId : String)
  | admitPaneArtifact (provider : Provider) (path : ArtifactPath)
  /-- Merges events that earlier cycles could not. -/
  | drainDeferredProviderEvents
  /-- A scan leaves another index. -/
  | discover (discovery : Discovery)
  | observeDiscoveredPath (provider : Provider) (path : ArtifactPath) (modifiedMs : ℤ)
  | removePath (provider : Provider) (pathId : ℕ) (path : ArtifactPath)
  | completeHistory (provider : Provider)
  | freezeHistoryManifest (manifest : PersistHistoryDrain)
  | abandonHistorical (item : AdapterWorkItem)
  | visitMeta (item : AdapterWorkItem) (fact : Option LogFact)
  /-- A file cannot be opened. -/
  | openFailed (item : AdapterWorkItem)
  | cycleGoalpost (item : AdapterWorkItem) (boundary : ReadBoundary)
  | bootstrap (item : AdapterWorkItem) (nowMs : ℤ)
  | emitDueLifecycleEvents (nowMs : ℤ)
  /-- Maps are visited in another order. -/
  | rehash (started : HashMap SessionScope ℤ) (pendingCompletes : HashMap SessionScope ControllerEvent)

variable {Discovery : Type}

/-- The outcome of a task. -/
def WorkerTask.perform (reader : RecordReader Discovery) (w : AdapterProviderWorker Discovery)
    (pending : PendingEvents) : WorkerTask Discovery → AdapterProviderWorker Discovery × PendingEvents
  | .beginPaneCycle => ({ w with logAdmission := w.logAdmission.beginPaneCycle }, pending)
  | .admitPaneSession provider sessionId =>
    ({ w with logAdmission := w.logAdmission.admitPaneSession provider sessionId }, pending)
  | .admitPaneArtifact provider path =>
    ({ w with logAdmission := (w.logAdmission.admitPaneArtifact provider path).1 }, pending)
  | .drainDeferredProviderEvents =>
    let (deferred, pending, _) := HerdrTop.drainDeferredProviderEvents w.deferred pending
    ({ w with deferred }, pending)
  | .discover discovery => ({ w with discovery }, pending)
  | .observeDiscoveredPath provider path modifiedMs =>
    ({ w with admissionIndex := w.admissionIndex.observeDiscoveredPath provider path modifiedMs }, pending)
  | .removePath provider pathId path => (w.removePath reader provider pathId path, pending)
  | .completeHistory provider => ({ w with historyCompleted := w.historyCompleted.insert provider }, pending)
  | .freezeHistoryManifest manifest =>
    if w.historyCompleted.contains manifest.provider || w.historyFailed.contains manifest.provider ||
        w.historyManifests.contains manifest.provider then (w, pending)
    else ({ w with historyManifests := w.historyManifests.insert manifest.provider manifest }, pending)
  | .abandonHistorical item => (w.abandonHistorical reader item, pending)
  | .visitMeta item fact => ((w.visitMeta reader item fact pending).1, (w.visitMeta reader item fact pending).2.1)
  | .openFailed item => (w.openTail reader item none, pending)
  | .cycleGoalpost item boundary => (w.cycleGoalpost reader item boundary, pending)
  | .bootstrap item nowMs => ((w.bootstrap reader item nowMs pending).1, (w.bootstrap reader item nowMs pending).2.1)
  | .emitDueLifecycleEvents nowMs =>
    ((w.emitDueLifecycleEvents nowMs pending).1, (w.emitDueLifecycleEvents nowMs pending).2.1)
  | .rehash started pendingCompletes =>
    ({ w with synthesis := { w.synthesis with started, pendingCompletes } }, pending)

/-- A task that may be performed. -/
def WorkerTask.Allowed (w : AdapterProviderWorker Discovery) : WorkerTask Discovery → Prop
  | .rehash started pendingCompletes =>
    w.synthesis.started.Rehash started ∧ w.synthesis.pendingCompletes.Rehash pendingCompletes
  | _ => True

/-- A step of the worker or of the thread that runs it. -/
inductive WorkerStep (reader : RecordReader Discovery) :
    WorkerState Discovery → List WorkerLabel → WorkerState Discovery → Prop
  /-- Between cycles the buffer is flushed, as far as the channel takes it. -/
  | flush {s : WorkerState Discovery} (answers : ℕ → SendAnswer) : s.stage = .waiting →
      WorkerStep reader s [] { s with pending := (s.pending.flushToSender answers).1 }
  /-- The state of a source is reported, in a cycle or as it ends. -/
  | report {s : WorkerState Discovery} (provider : Provider) (state : ProviderSourceState) :
      s.stage = .waiting ∨ s.stage = .working →
      WorkerStep reader s [] { s with pending := (s.pending.merge (.sourceState provider state)).1 }
  /-- A cycle begins, unless a barrier is held that is not acknowledged. -/
  | resume {s : WorkerState Discovery} (committed : Bool) : s.stage = .waiting →
      s.worker.heldHistoryBarrier = none ∨ committed = true →
      WorkerStep reader s [] { s with
        worker := s.worker.settleHistoryBarrier
        stage := .draining }
  /-- The record in front is merged. -/
  | merge {s : WorkerState Discovery} {item : AdapterWorkItem} {record : TailRecord}
      {waiting : List (AdapterWorkItem × TailRecord)} {worker : AdapterProviderWorker Discovery}
      {pending : PendingEvents} : s.stage = .draining → s.worker.deferredRecords = (item, record) :: waiting →
      s.worker.mergeRecord reader item record s.pending = (worker, pending, true) →
      WorkerStep reader s
        [.merged item record (s.worker.recordOrdinal item record) (s.worker.recordEvents reader item record)]
        { s with
          worker
          pending }
  /-- The record in front does not fit, and the cycle ends. -/
  | refuse {s : WorkerState Discovery} {item : AdapterWorkItem} {record : TailRecord}
      {waiting : List (AdapterWorkItem × TailRecord)} {worker : AdapterProviderWorker Discovery}
      {pending : PendingEvents} : s.stage = .draining → s.worker.deferredRecords = (item, record) :: waiting →
      s.worker.mergeRecord reader item record s.pending = (worker, pending, false) →
      WorkerStep reader s [.refused item record] ⟨worker, pending, .waiting⟩
  /-- All records are merged, and the cycle goes on. -/
  | drained {s : WorkerState Discovery} : s.stage = .draining → s.worker.deferredRecords = [] →
      WorkerStep reader s [] { s with stage := .working }
  | perform {s : WorkerState Discovery} (task : WorkerTask Discovery) : s.stage = .working →
      task.Allowed s.worker → WorkerStep reader s []
        { s with
          worker := (task.perform reader s.worker s.pending).1
          pending := (task.perform reader s.worker s.pending).2 }
  /-- The tail of a file is opened. -/
  | openTail {s : WorkerState Discovery} (item : AdapterWorkItem) (snapshot : FileSnapshot) :
      s.stage = .working → s.worker.tails.get item.file.pathId = none →
      WorkerStep reader s [.opened item.file.pathId]
        { s with worker := s.worker.openTail reader item (some snapshot) }
  /-- A file is polled, and its records are to be merged before the cycle goes on. -/
  | poll {s : WorkerState Discovery} (item : AdapterWorkItem) (boundary : ReadBoundary) (goalpost : ℕ) :
      s.stage = .working → WorkerStep reader s
        ((s.worker.pollTail reader item boundary goalpost).2.map (.polled item))
        { s with
          worker := (s.worker.pollTail reader item boundary goalpost).1
          stage := .draining }
  /-- The cycle ends with the barrier of a drain. -/
  | enqueueBarrier {s : WorkerState Discovery} (provider : Provider) (nowMs : ℤ) (acknowledgement : ℕ) :
      s.stage = .working → WorkerStep reader s []
        ⟨(s.worker.enqueueHistoryBarrier provider nowMs acknowledgement s.pending).1,
          (s.worker.enqueueHistoryBarrier provider nowMs acknowledgement s.pending).2, .waiting⟩
  /-- The cycle ends. -/
  | finish {s : WorkerState Discovery} : s.stage = .working → WorkerStep reader s [] { s with stage := .waiting }
  /-- The worker stops. -/
  | stop {s : WorkerState Discovery} (committed : Bool) : s.stage = .waiting →
      WorkerStep reader s [] { s with
        worker := (s.worker.gracefulStop committed).1
        stage := .stopped }

/-- Before the first cycle. -/
def WorkerState.start (discovery : Discovery) (anchorMs completeGraceMs headlessInactivityMs nowMs : ℤ)
    (pending : PendingEvents) : WorkerState Discovery where
  worker := {
    discovery
    logAdmission := .new anchorMs
    synthesis := .withLifecycleTimingAt completeGraceMs headlessInactivityMs nowMs }
  pending
  stage := .waiting

/-! ### Generations of a tail -/

namespace TailFile

/-- The records of some bytes are of the generation of the tail. -/
theorem acceptFrom_generation {start : ℕ} {bytes : List UInt8} {fuel cursor : ℕ} {t : TailFile}
    {records : List TailRecord} (h : ∀ record ∈ records, record.generation = t.generation) :
    (acceptFrom start bytes fuel cursor t records).1.generation = t.generation ∧
      ∀ record ∈ (acceptFrom start bytes fuel cursor t records).2, record.generation = t.generation := by
  induction fuel generalizing cursor t records with
  | zero => exact ⟨rfl, h⟩
  | succ fuel ih =>
    have hadd : ∀ record : TailRecord, record.generation = t.generation →
        ∀ r ∈ records ++ [record], r.generation = t.generation := by
      intro record hrecord r hr
      rcases List.mem_append.mp hr with hr | hr
      · exact h r hr
      · rw [List.mem_singleton.mp hr, hrecord]
    unfold acceptFrom
    split_ifs
    · dsimp only
      split
      · exact ih h
      · exact ⟨rfl, h⟩
      · refine ih (hadd _ ?_)
        split_ifs <;> rfl
      · split_ifs
        · exact ⟨rfl, hadd _ rfl⟩
        · exact ⟨rfl, h⟩
    · exact ⟨rfl, h⟩

theorem acceptBytes_generation (t : TailFile) (start : ℕ) (bytes : List UInt8) :
    (t.acceptBytes start bytes).1.generation = t.generation ∧
      ∀ record ∈ (t.acceptBytes start bytes).2, record.generation = t.generation := by
  have h := fun t : TailFile => @acceptFrom_generation start bytes bytes.length 0 t [] (by simp)
  unfold acceptBytes
  dsimp only
  split_ifs
  · exact h { t with
      partialOffset := start
      offset := satAddU64 start bytes.length }
  · exact h { t with offset := satAddU64 start bytes.length }

/-- A tail whose generation did not go back, and is a number of the source. -/
def Later (t t' : TailFile) : Prop := t.generation ≤ t'.generation ∧ t'.generation ≤ u64Max

theorem restart_later {t : TailFile} (h : t.generation ≤ u64Max) (identity : ℕ × ℕ) :
    Later t (t.restart identity) := by
  show t.generation ≤ satAddU64 t.generation 1 ∧ satAddU64 t.generation 1 ≤ u64Max
  unfold satAddU64
  omega

theorem observeSnapshot_later {t : TailFile} (h : t.generation ≤ u64Max) (snapshot : FileSnapshot) :
    Later t (t.observeSnapshot snapshot) := by
  unfold observeSnapshot
  dsimp only
  split_ifs
  · exact restart_later h snapshot.identity
  · exact ⟨le_rfl, h⟩

theorem acceptBytes_later {t u : TailFile} (h : Later t u) (start : ℕ) (bytes : List UInt8) :
    Later t ((u.acceptBytes start bytes).map id some).1 ∧
      ∀ records, ((u.acceptBytes start bytes).map id some).2 = some records → ∀ record ∈ records,
        record.generation = ((u.acceptBytes start bytes).map id some).1.generation := by
  obtain ⟨hsame, hrecords⟩ := u.acceptBytes_generation start bytes
  refine ⟨?_, fun records hsome record hrecord => ?_⟩
  · show t.generation ≤ (u.acceptBytes start bytes).1.generation ∧ (u.acceptBytes start bytes).1.generation ≤ u64Max
    rw [hsame]
    exact h
  · cases hsome
    exact (hrecords record hrecord).trans hsame.symm

/-- The records of a poll are of the generation the tail has then. -/
theorem pollToGoalpost_later {t : TailFile} (h : t.generation ≤ u64Max) (boundary : ReadBoundary)
    (goalpost : ℕ) :
    Later t (t.pollToGoalpost boundary goalpost).1 ∧
      ∀ records, (t.pollToGoalpost boundary goalpost).2 = some records → ∀ record ∈ records,
        record.generation = (t.pollToGoalpost boundary goalpost).1.generation := by
  unfold pollToGoalpost
  split
  · exact ⟨⟨le_rfl, h⟩, by simp⟩
  · next snapshot _ =>
    have hseen := observeSnapshot_later h snapshot
    unfold pollSnapshotToGoalpost
    dsimp only
    generalize t.observeSnapshot snapshot = seen at hseen ⊢
    split_ifs
    · exact ⟨hseen, by simp⟩
    · split
      · exact ⟨hseen, by simp⟩
      · next chunk _ =>
        split_ifs
        · have hnew := restart_later (t := seen.noteRead chunk.bytes) hseen.2 chunk.snapshot.identity
          have hlater : t.generation ≤ _ := hseen.1.trans hnew.1
          split
          · exact ⟨⟨hlater, hnew.2⟩, by simp⟩
          · split_ifs
            · exact ⟨⟨hlater, hnew.2⟩, by simp⟩
            · apply acceptBytes_later
              exact ⟨hlater, hnew.2⟩
        · apply acceptBytes_later
          exact hseen

end TailFile

/-! ### Merging all or none -/

/-- Merges events one after the other, if they all fit. -/
def mergeEach (pending : PendingEvents) (slots : List PendingSlot) : Option PendingEvents :=
  slots.foldlM (fun pending slot =>
    match pending.mergeWithOrigin slot with
    | (_, .atCapacity _) => none
    | (pending, _) => some pending) pending

namespace AdapterProviderWorker

variable {reader : RecordReader Discovery} {w w' : AdapterProviderWorker Discovery}
  {item : AdapterWorkItem} {record : TailRecord} {pending pending' : PendingEvents}

/-- The slots of some events: an event that was synthesized earlier keeps the origin it had then, the others
have the origin of what they come from. -/
def originatedSlots (w : AdapterProviderWorker Discovery) (fallback : ObservationOrigin) :
    List ProviderEvent → Synthesis → List PendingSlot
  | [], _ => []
  | event :: events, synthesis =>
    let (synthesis, taken) := synthesis.takeLifecycleOrigin event
    let origin := taken.getD fallback
    ⟨event, origin, w.historyManifestForOrigin origin⟩ :: originatedSlots w fallback events synthesis

/-- The slots of a record, as it would be parsed now. -/
def recordSlots (reader : RecordReader Discovery) (w : AdapterProviderWorker Discovery) (item : AdapterWorkItem)
    (record : TailRecord) : List PendingSlot :=
  let origin := (w.recordOrigin reader item (some record)).1
  let (parsed, events) := w.parseRecord reader item record origin
  parsed.originatedSlots origin events parsed.synthesis

/-- The slots of what is due at a time. -/
def dueSlots (w : AdapterProviderWorker Discovery) (nowMs : ℤ) : List PendingSlot :=
  let (synthesis, events) := w.synthesis.advanceLifecycle nowMs
  w.originatedSlots .live (events.map (·.event)) synthesis

/-- The lane after what is due was emitted: the origins that it kept for that are taken. -/
def synthesisAfterDue (w : AdapterProviderWorker Discovery) (nowMs : ℤ) : Synthesis :=
  let (synthesis, events) := w.synthesis.advanceLifecycle nowMs
  (events.map (·.event)).foldl (fun synthesis event => (synthesis.takeLifecycleOrigin event).1) synthesis

@[simp] theorem originatedSlots_events (fallback : ObservationOrigin) (events : List ProviderEvent)
    (synthesis : Synthesis) : (w.originatedSlots fallback events synthesis).map (·.event) = events := by
  induction events generalizing synthesis with
  | nil => rfl
  | cons event events ih => exact congrArg (event :: ·) (ih _)

theorem recordSlots_events : (w.recordSlots reader item record).map (·.event) = w.recordEvents reader item record :=
  originatedSlots_events _ _ _

theorem dueSlots_events (nowMs : ℤ) :
    (w.dueSlots nowMs).map (·.event) = (w.synthesis.advanceLifecycle nowMs).2.map (·.event) :=
  originatedSlots_events _ _ _

theorem mergeEach_cons (pending : PendingEvents) (slot : PendingSlot) (slots : List PendingSlot) :
    mergeEach pending (slot :: slots) =
      match pending.mergeWithOrigin slot with
      | (_, .atCapacity _) => none
      | (pending, _) => mergeEach pending slots := by
  rw [mergeEach, List.foldlM_cons]
  split <;> rfl

/-- Synthesized events that are merged all fit, and their origins are taken. -/
theorem mergeSynthesized_fits {fallback : ObservationOrigin} {events : List ProviderEvent}
    {synthesis synthesis' : Synthesis} {trial : PendingEvents}
    (h : w.mergeSynthesized fallback events synthesis pending = (synthesis', trial, true)) :
    mergeEach pending (w.originatedSlots fallback events synthesis) = some trial ∧
      synthesis' = events.foldl (fun synthesis event => (synthesis.takeLifecycleOrigin event).1) synthesis := by
  induction events generalizing synthesis pending with
  | nil =>
    cases h
    exact ⟨rfl, rfl⟩
  | cons event events ih =>
    simp only [mergeSynthesized] at h
    split at h
    next => cases h
    next trial' outcome hne hmerge =>
      rw [originatedSlots, mergeEach_cons, hmerge]
      cases outcome with
      | atCapacity event' => exact absurd rfl (hne event')
      | _ => exact ih h

/-- Synthesized events that are not merged do not fit. -/
theorem mergeSynthesized_refuses {fallback : ObservationOrigin} {events : List ProviderEvent}
    {synthesis synthesis' : Synthesis} {trial : PendingEvents}
    (h : w.mergeSynthesized fallback events synthesis pending = (synthesis', trial, false)) :
    mergeEach pending (w.originatedSlots fallback events synthesis) = none := by
  induction events generalizing synthesis pending with
  | nil => cases h
  | cons event events ih =>
    simp only [mergeSynthesized] at h
    split at h
    next hmerge => rw [originatedSlots, mergeEach_cons, hmerge]
    next trial' outcome hne hmerge =>
      rw [originatedSlots, mergeEach_cons, hmerge]
      cases outcome with
      | atCapacity event' => exact absurd rfl (hne event')
      | _ => exact ih h

/-- What parsing a record changes. -/
theorem parseRecord_frame (origin : ObservationOrigin) :
    { (w.parseRecord reader item record origin).1 with
        synthesis := w.synthesis
        logAdmission := w.logAdmission
        recordOrdinals := w.recordOrdinals } = w := by
  unfold parseRecord
  dsimp only
  split_ifs
  · rfl
  · split <;> rfl

/-- A record that is refused does not fit. The worker is left as it was, and of the buffer the counters only are
changed. -/
theorem mergeRecord_refused (h : w.mergeRecord reader item record pending = (w', pending', false)) :
    mergeEach pending (w.recordSlots reader item record) = none ∧
      w' = w ∧ pending' = { pending with diagnostics := pending'.diagnostics } := by
  simp only [mergeRecord] at h
  split at h
  next hmerge =>
    obtain ⟨hw, h⟩ := Prod.mk.inj h
    obtain ⟨hpending, -⟩ := Prod.mk.inj h
    refine ⟨mergeSynthesized_refuses hmerge, hw.symm.trans (parseRecord_frame _), ?_⟩
    rw [← hpending]
  · cases h

@[simp] theorem abandonHistoryDrain_deferredRecords (provider : Provider) :
    (w.abandonHistoryDrain provider).deferredRecords = w.deferredRecords := rfl

@[simp] theorem abandonHistoryDrain_tails (provider : Provider) :
    (w.abandonHistoryDrain provider).tails = w.tails := rfl

@[simp] theorem abandonHistoryDrain_recordOrdinals (provider : Provider) :
    (w.abandonHistoryDrain provider).recordOrdinals = w.recordOrdinals := rfl

theorem abandonHistoryDrain_held (provider : Provider) (h : w.heldHistoryBarrier = none) :
    (w.abandonHistoryDrain provider).heldHistoryBarrier = none := by
  simp [abandonHistoryDrain, h]

/-- What a merged record leaves. -/
structure Merged (reader : RecordReader Discovery) (item : AdapterWorkItem) (record : TailRecord)
    (w w' : AdapterProviderWorker Discovery) : Prop where
  /-- It left the queue. -/
  queue : w'.deferredRecords = w.deferredRecords.tail
  tails : w'.tails = w.tails
  held : w.heldHistoryBarrier = none → w'.heldHistoryBarrier = none
  /-- It was counted, if it carries no error. -/
  counted : record.errorCode = none → w'.recordOrdinals = w.recordOrdinals.insert item.file.pathId
    (record.generation, satAddU64 (w.ordinalState record item.file.pathId).2 1)
  uncounted : record.errorCode ≠ none → w'.recordOrdinals = w.recordOrdinals

theorem ordinalState_generation (record : TailRecord) (pathId : ℕ) :
    (w.ordinalState record pathId).1 = record.generation := by
  unfold ordinalState
  dsimp only
  split_ifs with h
  · rfl
  · simpa using h

theorem parseRecord_fields (origin : ObservationOrigin) :
    (w.parseRecord reader item record origin).1.deferredRecords = w.deferredRecords ∧
      (w.parseRecord reader item record origin).1.tails = w.tails ∧
      (w.parseRecord reader item record origin).1.heldHistoryBarrier = w.heldHistoryBarrier ∧
      (w.parseRecord reader item record origin).1.recordOrdinals =
        if record.errorCode.isSome then w.recordOrdinals
        else w.recordOrdinals.insert item.file.pathId
          (record.generation, satAddU64 (w.ordinalState record item.file.pathId).2 1) := by
  rw [← w.ordinalState_generation record item.file.pathId]
  unfold parseRecord
  dsimp only
  split_ifs
  · exact ⟨rfl, rfl, rfl, rfl⟩
  · split <;> exact ⟨rfl, rfl, rfl, rfl⟩

/-- A record that is merged: its events are, each once and in order, and it leaves the queue. -/
theorem mergeRecord_merged (h : w.mergeRecord reader item record pending = (w', pending', true)) :
    Merged reader item record w w' ∧ mergeEach pending (w.recordSlots reader item record) = some pending' := by
  obtain ⟨hqueue, htails, hheld, hordinals⟩ :=
    @parseRecord_fields _ reader w item record (w.recordOrigin reader item (some record)).1
  simp only [mergeRecord] at h
  split at h
  · cases h
  next synthesis trial hmerge =>
    obtain ⟨hw, h⟩ := Prod.mk.inj h
    obtain ⟨rfl, -⟩ := Prod.mk.inj h
    refine ⟨?_, (mergeSynthesized_fits hmerge).1⟩
    generalize w.parseRecord reader item record (w.recordOrigin reader item (some record)).1 = parsed
      at hw hqueue htails hheld hordinals
    have hfields : w'.deferredRecords = parsed.1.deferredRecords.tail ∧ w'.tails = parsed.1.tails ∧
        (parsed.1.heldHistoryBarrier = none → w'.heldHistoryBarrier = none) ∧
        w'.recordOrdinals = parsed.1.recordOrdinals := by
      rw [← hw]
      split_ifs
      · exact ⟨rfl, rfl, abandonHistoryDrain_held _, rfl⟩
      · exact ⟨rfl, rfl, id, rfl⟩
    obtain ⟨hqueue', htails', hheld', hordinals'⟩ := hfields
    refine ⟨by rw [hqueue', hqueue], htails'.trans htails, fun hnone => hheld' (hheld.trans hnone),
      fun hnone => ?_, fun herror => ?_⟩
    · rw [hordinals', hordinals, hnone]
      rfl
    · rw [hordinals', hordinals, if_pos (Option.isSome_iff_ne_none.mpr herror)]

/-! ### What the tasks leave alone -/

/-- A worker with the same queue, and a barrier only if there was one. -/
structure SameQueue (w w' : AdapterProviderWorker Discovery) : Prop where
  queue : w'.deferredRecords = w.deferredRecords
  held : w.heldHistoryBarrier = none → w'.heldHistoryBarrier = none

/-- A worker whose tails and ordinals are the same too. -/
structure SameTails (w w' : AdapterProviderWorker Discovery) : Prop extends SameQueue w w' where
  tails : w'.tails = w.tails
  ordinals : w'.recordOrdinals = w.recordOrdinals

theorem SameTails.refl (w : AdapterProviderWorker Discovery) : SameTails w w := ⟨⟨rfl, id⟩, rfl, rfl⟩

theorem abandonHistoryDrain_same (provider : Provider) : SameTails w (w.abandonHistoryDrain provider) :=
  ⟨⟨rfl, abandonHistoryDrain_held provider⟩, rfl, rfl⟩

theorem abandonHistorical_same : SameTails w (w.abandonHistorical reader item) := by
  unfold abandonHistorical
  split
  · exact abandonHistoryDrain_same _
  · exact .refl w

theorem visitMeta_same {fact : Option LogFact} : SameTails w (w.visitMeta reader item fact pending).1 := by
  unfold visitMeta
  split
  · exact .refl w
  · dsimp only
    split_ifs
    · exact .refl w
    · split
      · exact ⟨⟨rfl, id⟩, rfl, rfl⟩
      · exact .refl w

theorem bootstrap_same {nowMs : ℤ} : SameTails w (w.bootstrap reader item nowMs pending).1 := by
  unfold bootstrap
  split
  · exact .refl w
  · dsimp only
    split_ifs
    · exact .refl w
    · exact ⟨⟨rfl, id⟩, rfl, rfl⟩
    · exact .refl w

theorem emitDueLifecycleEvents_same {nowMs : ℤ} : SameTails w (w.emitDueLifecycleEvents nowMs pending).1 := by
  unfold emitDueLifecycleEvents
  dsimp only
  split
  · exact ⟨⟨rfl, id⟩, rfl, rfl⟩
  · exact .refl w

theorem settleHistoryBarrier_none (h : w.heldHistoryBarrier = none) : w.settleHistoryBarrier = w := by
  unfold settleHistoryBarrier
  rw [h]

theorem settleHistoryBarrier_same : SameTails w w.settleHistoryBarrier := by
  unfold settleHistoryBarrier
  split
  · exact .refl w
  · exact ⟨⟨rfl, fun _ => rfl⟩, rfl, rfl⟩

theorem gracefulStop_same {committed : Bool} : SameTails w (w.gracefulStop committed).1 := by
  have hsettled : SameTails w (if committed then w.settleHistoryBarrier else w) := by
    split_ifs
    · exact settleHistoryBarrier_same
    · exact .refl w
  unfold gracefulStop
  dsimp only
  generalize (if committed then w.settleHistoryBarrier else w) = settled at hsettled ⊢
  split_ifs
  · exact hsettled
  · exact ⟨⟨hsettled.queue, hsettled.held⟩, hsettled.tails, hsettled.ordinals⟩

/-- The generation of a file without one yet. -/
theorem openGeneration_le (path : ArtifactPath) :
    ((w.generations.get path).elim 0 fun generation => satAddU64 generation 1) ≤ u64Max := by
  cases w.generations.get path with
  | none => exact Nat.zero_le _
  | some generation => exact min_le_right _ _

/-- A file that cannot be opened leaves the tails alone. -/
theorem openFailed_same : SameTails w (w.openTail reader item none) := by
  unfold openTail
  split_ifs
  · exact .refl w
  · dsimp only
    generalize (w.generations.get item.file.absolute).elim 0 _ = generation
    have h := @abandonHistorical_same _ reader
      { w with generations := w.generations.insert item.file.absolute generation } item
    exact ⟨⟨h.queue, h.held⟩, h.tails, h.ordinals⟩

end AdapterProviderWorker

/-! ### The queue -/

namespace WorkerLabel

/-- The record that was read. -/
def polledRecord : WorkerLabel → Option (AdapterWorkItem × TailRecord)
  | .polled item record => some (item, record)
  | _ => none

/-- The record whose events were merged. -/
def mergedRecord : WorkerLabel → Option (AdapterWorkItem × TailRecord)
  | .merged item record _ _ => some (item, record)
  | _ => none

end WorkerLabel

def polledRecords (labels : List WorkerLabel) : List (AdapterWorkItem × TailRecord) :=
  labels.filterMap (·.polledRecord)

def mergedRecords (labels : List WorkerLabel) : List (AdapterWorkItem × TailRecord) :=
  labels.filterMap (·.mergedRecord)

/-- What a label adds to the merged records of a generation of a file. -/
def noteRecord (pathId generation : ℕ) (records : List TailRecord) : WorkerLabel → List TailRecord
  | .opened opened => if opened = pathId then [] else records
  | .merged item record _ _ =>
    if item.file.pathId = pathId ∧ record.generation = generation then records ++ [record] else records
  | _ => records

/-- The records of a generation of a file that were merged since its tail was opened. -/
def recordsSince (pathId generation : ℕ) (labels : List WorkerLabel) : List TailRecord :=
  labels.foldl (noteRecord pathId generation) []

/-- How many of them carry no error. -/
def countedSince (pathId generation : ℕ) (labels : List WorkerLabel) : ℕ :=
  ((recordsSince pathId generation labels).filter fun record => record.errorCode = none).length

section Labels

variable {labels : List WorkerLabel} {pathId generation : ℕ}

@[simp] theorem polledRecords_polled (item : AdapterWorkItem) (records : List TailRecord) :
    polledRecords (records.map (.polled item)) = records.map fun record => (item, record) := by
  simp [polledRecords, List.filterMap_map, WorkerLabel.polledRecord]

theorem mergedRecords_append (labels labels' : List WorkerLabel) :
    mergedRecords (labels ++ labels') = mergedRecords labels ++ mergedRecords labels' :=
  List.filterMap_append

@[simp] theorem mergedRecords_polled (item : AdapterWorkItem) (records : List TailRecord) :
    mergedRecords (records.map (.polled item)) = [] := by
  simp [mergedRecords, WorkerLabel.mergedRecord]

/-- Reading counts nothing. -/
theorem countedSince_polled (item : AdapterWorkItem) (records : List TailRecord) :
    countedSince pathId generation (labels ++ records.map (.polled item)) =
      countedSince pathId generation labels := by
  unfold countedSince recordsSince
  rw [List.foldl_append, List.foldl_map]
  congr 2
  generalize labels.foldl _ [] = since
  induction records with
  | nil => rfl
  | cons record records ih => exact ih

theorem countedSince_refused (item : AdapterWorkItem) (record : TailRecord) :
    countedSince pathId generation (labels ++ [.refused item record]) = countedSince pathId generation labels := by
  unfold countedSince recordsSince
  rw [List.foldl_append]
  rfl

theorem countedSince_opened (opened : ℕ) :
    countedSince pathId generation (labels ++ [.opened opened]) =
      if opened = pathId then 0 else countedSince pathId generation labels := by
  unfold countedSince recordsSince
  rw [List.foldl_append, List.foldl_cons, List.foldl_nil]
  dsimp only [noteRecord]
  split_ifs <;> rfl

theorem countedSince_merged (item : AdapterWorkItem) (record : TailRecord) (ordinal : Option ℕ)
    (events : List ProviderEvent) :
    countedSince pathId generation (labels ++ [.merged item record ordinal events]) =
      countedSince pathId generation labels +
        if item.file.pathId = pathId ∧ record.generation = generation ∧ record.errorCode = none then 1 else 0 := by
  unfold countedSince recordsSince
  rw [List.foldl_append, List.foldl_cons, List.foldl_nil]
  dsimp only [noteRecord]
  generalize labels.foldl _ [] = since
  by_cases hfile : item.file.pathId = pathId ∧ record.generation = generation
  · rw [if_pos hfile, List.filter_append, List.length_append]
    by_cases herror : record.errorCode = none
    · rw [if_pos ⟨hfile.1, hfile.2, herror⟩]
      simp [herror]
    · rw [if_neg fun h => herror h.2.2]
      simp [herror]
  · rw [if_neg hfile, if_neg fun h => hfile ⟨h.1, h.2.1⟩]
    rfl

end Labels

/-! ### Tails and ordinals between records -/

namespace AdapterProviderWorker

variable {reader : RecordReader Discovery} {w w' w'' : AdapterProviderWorker Discovery}
  {item : AdapterWorkItem} {record : TailRecord} {pending pending' : PendingEvents}

/-- A worker whose tails went on, but for those it forgot; the ordinals of the others are the same. -/
def TailsLater (w w' : AdapterProviderWorker Discovery) : Prop :=
  ∀ pathId tail', w'.tails.get pathId = some tail' → ∃ tail, w.tails.get pathId = some tail ∧
    (tail.generation ≤ u64Max → tail.Later tail') ∧
    w'.recordOrdinals.get pathId = w.recordOrdinals.get pathId

theorem SameTails.later (h : SameTails w w') : TailsLater w w' := fun pathId tail' htail =>
  ⟨tail', h.tails ▸ htail, fun hle => ⟨le_rfl, hle⟩, by rw [h.ordinals]⟩

theorem TailsLater.trans (h : TailsLater w w') (h' : SameTails w' w'') : TailsLater w w'' := by
  intro pathId tail htail
  rw [h'.tails] at htail
  rw [h'.ordinals]
  exact h pathId tail htail

theorem removePath_queue (provider : Provider) (pathId : ℕ) (path : ArtifactPath) :
    SameQueue w (w.removePath reader provider pathId path) := by
  unfold removePath
  split
  · exact ⟨rfl, id⟩
  · dsimp only
    split_ifs
    · exact ⟨rfl, fun h => abandonHistoryDrain_held (w := { w with
        tails := w.tails.remove pathId
        invalidatedHistoryArtifacts := _ }) provider h⟩
    · exact ⟨rfl, id⟩

theorem removePath_later (provider : Provider) (pathId : ℕ) (path : ArtifactPath) :
    TailsLater w (w.removePath reader provider pathId path) := by
  have htails : (w.removePath reader provider pathId path).tails = w.tails.remove pathId ∨
      w.tails.get pathId = none ∧ (w.removePath reader provider pathId path).tails = w.tails := by
    unfold removePath
    split
    next hnone => exact .inr ⟨hnone, rfl⟩
    · dsimp only
      split_ifs <;> exact .inl rfl
  have hordinals : (w.removePath reader provider pathId path).recordOrdinals =
      w.recordOrdinals.remove pathId := by
    unfold removePath
    split
    · rfl
    · dsimp only
      split_ifs <;> rfl
  intro other tail' htail'
  have hne : other ≠ pathId ∧ w.tails.get other = some tail' := by
    rcases htails with htails | ⟨hnone, htails⟩
    · rw [htails, HashMap.get_remove] at htail'
      split_ifs at htail' with heq
      exact ⟨heq, htail'⟩
    · rw [htails] at htail'
      refine ⟨?_, htail'⟩
      rintro rfl
      rw [hnone] at htail'
      cases htail'
  refine ⟨tail', hne.2, fun hle => ⟨le_rfl, hle⟩, ?_⟩
  rw [hordinals, HashMap.get_remove_ne _ hne.1]

/-- A tail that goes on. -/
theorem later_insert {pathId : ℕ} {tail tail' : TailFile} (htail : w.tails.get pathId = some tail)
    (hlater : tail.generation ≤ u64Max → tail.Later tail') (htails : w'.tails = w.tails.insert pathId tail')
    (hordinals : w'.recordOrdinals = w.recordOrdinals) : TailsLater w w' := by
  intro other tail'' h
  rw [htails, HashMap.get_insert] at h
  rw [hordinals]
  split_ifs at h with heq
  · cases h
    exact ⟨tail, heq ▸ htail, hlater, rfl⟩
  · exact ⟨tail'', h, fun hle => ⟨le_rfl, hle⟩, rfl⟩

theorem cycleGoalpost_later (boundary : ReadBoundary) :
    TailsLater w (w.cycleGoalpost reader item boundary) ∧ SameQueue w (w.cycleGoalpost reader item boundary) := by
  unfold cycleGoalpost
  split
  · exact ⟨(SameTails.refl w).later, ⟨rfl, id⟩⟩
  next tail htail =>
    dsimp only
    have hinsert : TailsLater w { w with
        tails := w.tails.insert item.file.pathId (tail.cycleGoalpost boundary).1 } := by
      refine later_insert htail (fun hle => ?_) rfl rfl
      unfold TailFile.cycleGoalpost
      split
      · exact ⟨le_rfl, hle⟩
      · exact TailFile.observeSnapshot_later hle _
    split_ifs
    · have hsame := @abandonHistorical_same _ reader
        { w with tails := w.tails.insert item.file.pathId (tail.cycleGoalpost boundary).1 } item
      exact ⟨hinsert.trans hsame, ⟨hsame.queue, hsame.held⟩⟩
    · exact ⟨hinsert, ⟨rfl, id⟩⟩

/-- What a task leaves of the queue and of the tails. -/
theorem perform_later (task : WorkerTask Discovery) :
    TailsLater w (task.perform reader w pending).1 ∧ SameQueue w (task.perform reader w pending).1 := by
  have hquiet : ∀ {w' : AdapterProviderWorker Discovery}, SameTails w w' → TailsLater w w' ∧ SameQueue w w' :=
    fun h => ⟨h.later, h.toSameQueue⟩
  cases task with
  | removePath provider pathId path => exact ⟨removePath_later _ _ _, removePath_queue _ _ _⟩
  | cycleGoalpost item boundary => exact cycleGoalpost_later boundary
  | abandonHistorical item => exact hquiet abandonHistorical_same
  | visitMeta item fact => exact hquiet visitMeta_same
  | openFailed item => exact hquiet openFailed_same
  | bootstrap item nowMs => exact hquiet bootstrap_same
  | emitDueLifecycleEvents nowMs => exact hquiet emitDueLifecycleEvents_same
  | freezeHistoryManifest manifest =>
    apply hquiet
    simp only [WorkerTask.perform]
    split_ifs
    · exact .refl w
    · exact ⟨⟨rfl, id⟩, rfl, rfl⟩
  | _ => exact hquiet ⟨⟨rfl, id⟩, rfl, rfl⟩

/-- What a poll leaves: records of the generation the tail has now wait behind the others. -/
structure Polled (item : AdapterWorkItem) (w w' : AdapterProviderWorker Discovery) (records : List TailRecord) :
    Prop where
  later : TailsLater w w'
  held : w.heldHistoryBarrier = none → w'.heldHistoryBarrier = none
  queue : w'.deferredRecords = w.deferredRecords ++ records.map fun record => (item, record)
  generation : (∀ tail, w.tails.get item.file.pathId = some tail → tail.generation ≤ u64Max) →
    ∀ record ∈ records, ∃ tail, w'.tails.get item.file.pathId = some tail ∧ tail.generation = record.generation

theorem pollTail_polled (item : AdapterWorkItem) (boundary : ReadBoundary) (goalpost : ℕ) :
    Polled item w (w.pollTail reader item boundary goalpost).1 (w.pollTail reader item boundary goalpost).2 := by
  unfold pollTail
  split
  · exact ⟨(SameTails.refl w).later, id, by simp, by simp⟩
  next tail htail =>
    dsimp only
    have hlater := fun hle => @TailFile.pollToGoalpost_later tail hle boundary goalpost
    generalize tail.pollToGoalpost boundary goalpost = polled at hlater ⊢
    have hinsert : TailsLater w ({ w with tails := w.tails.insert item.file.pathId polled.1 }.raiseGeneration
        item.file.absolute polled.1.generation) := later_insert htail (fun hle => (hlater hle).1) rfl rfl
    split
    · have hsame := @abandonHistorical_same _ reader
        ({ w with tails := w.tails.insert item.file.pathId polled.1 }.raiseGeneration item.file.absolute
          polled.1.generation) item
      exact ⟨hinsert.trans hsame, fun h => hsame.held h, by rw [hsame.queue]; simp [raiseGeneration], by simp⟩
    next records hrecords =>
      refine ⟨hinsert, id, rfl, fun hle record hrecord => ⟨polled.1, ?_, ?_⟩⟩
      · exact HashMap.get_insert_self _ _ _
      · exact ((hlater (hle tail htail)).2 records hrecords record hrecord).symm

end AdapterProviderWorker

/-! ### What every run keeps -/

namespace WorkerState

/-- What is true of the queue and of the tails. -/
structure Sound (s : WorkerState Discovery) : Prop where
  /-- A cycle goes on only when no record waits. -/
  idle : s.stage = .working → s.worker.deferredRecords = []
  /-- A barrier is held between cycles only, and no record waits then. -/
  held : s.worker.heldHistoryBarrier ≠ none →
    (s.stage = .waiting ∨ s.stage = .stopped) ∧ s.worker.deferredRecords = []
  generations : ∀ pathId tail, s.worker.tails.get pathId = some tail → tail.generation ≤ u64Max
  /-- The records that wait are of the generation that their tail has. -/
  queued : ∀ p ∈ s.worker.deferredRecords, ∃ tail,
    s.worker.tails.get p.1.file.pathId = some tail ∧ tail.generation = p.2.generation

end WorkerState

/-- The ordinals count the records that carry no error and were merged. -/
def Counted (labels : List WorkerLabel) (w : AdapterProviderWorker Discovery) : Prop :=
  ∀ pathId tail, w.tails.get pathId = some tail → ∃ generation,
    w.recordOrdinals.get pathId = some (generation, min (countedSince pathId generation labels) u64Max) ∧
    generation ≤ tail.generation ∧ ∀ later, generation < later → countedSince pathId later labels = 0

section Invariants

open AdapterProviderWorker

variable {reader : RecordReader Discovery} {s s' : WorkerState Discovery} {labels l : List WorkerLabel}
  {w w' : AdapterProviderWorker Discovery}

theorem Counted.later (h : Counted labels w) (hle : ∀ pathId tail, w.tails.get pathId = some tail →
    tail.generation ≤ u64Max) (hlater : TailsLater w w') : Counted labels w' := by
  intro pathId tail' htail'
  obtain ⟨tail, htail, hgrow, hordinals⟩ := hlater pathId tail' htail'
  obtain ⟨generation, hget, hgeneration, hnone⟩ := h pathId tail htail
  exact ⟨generation, hordinals.trans hget, hgeneration.trans (hgrow (hle pathId tail htail)).1, hnone⟩

theorem TailsLater.generations (hlater : TailsLater w w') (hle : ∀ pathId tail,
    w.tails.get pathId = some tail → tail.generation ≤ u64Max) :
    ∀ pathId tail, w'.tails.get pathId = some tail → tail.generation ≤ u64Max := by
  intro pathId tail' htail'
  obtain ⟨tail, htail, hgrow, -⟩ := hlater pathId tail' htail'
  exact (hgrow (hle pathId tail htail)).2

/-- The ordinal a record gets is the number of its predecessors that were counted. -/
theorem Counted.ordinal (h : Counted labels w) {item : AdapterWorkItem} {record : TailRecord} {tail : TailFile}
    (htail : w.tails.get item.file.pathId = some tail) (hgeneration : tail.generation = record.generation) :
    (w.ordinalState record item.file.pathId).2 =
      min (countedSince item.file.pathId record.generation labels) u64Max := by
  obtain ⟨generation, hget, hle, hnone⟩ := h _ tail htail
  unfold ordinalState
  rw [hget]
  dsimp only [Option.getD_some]
  split_ifs with hne
  · rw [hnone record.generation (by omega)]
    rfl
  · rw [not_not.mp hne]

/-- A merged record is counted. -/
theorem Counted.merged (h : Counted labels w) {item : AdapterWorkItem} {record : TailRecord} {tail : TailFile}
    {ordinal : Option ℕ} {events : List ProviderEvent} (hmerged : Merged reader item record w w')
    (htail : w.tails.get item.file.pathId = some tail) (hgeneration : tail.generation = record.generation) :
    Counted (labels ++ [.merged item record ordinal events]) w' := by
  intro pathId tail' htail'
  rw [hmerged.tails] at htail'
  obtain ⟨generation, hget, hle, hnone⟩ := h pathId tail' htail'
  by_cases hcounted : item.file.pathId = pathId ∧ record.errorCode = none
  · obtain ⟨rfl, herror⟩ := hcounted
    cases htail.symm.trans htail'
    refine ⟨record.generation, ?_, hgeneration.ge, fun later hlt => ?_⟩
    · rw [hmerged.counted herror, HashMap.get_insert_self, h.ordinal htail hgeneration, countedSince_merged,
        if_pos ⟨rfl, rfl, herror⟩]
      congr 2
      unfold satAddU64
      omega
    · rw [countedSince_merged, if_neg fun h => by omega, hnone later (by omega)]
  · have hother : w'.recordOrdinals.get pathId = w.recordOrdinals.get pathId := by
      by_cases herror : record.errorCode = none
      · rw [hmerged.counted herror, HashMap.get_insert_ne _ _ fun h => hcounted ⟨h.symm, herror⟩]
      · rw [hmerged.uncounted herror]
    have hsame : ∀ generation, countedSince pathId generation
        (labels ++ [.merged item record ordinal events]) = countedSince pathId generation labels := by
      intro generation
      rw [countedSince_merged, if_neg fun h => hcounted ⟨h.1, h.2.2⟩, Nat.add_zero]
    refine ⟨generation, ?_, hle, fun later hlt => ?_⟩
    · rw [hother, hget, hsame]
    · rw [hsame]
      exact hnone later hlt

/-- A file that is opened has no counted records. -/
theorem Counted.opened (h : Counted labels w) {item : AdapterWorkItem} {snapshot : FileSnapshot}
    (hclosed : w.tails.get item.file.pathId = none) :
    Counted (labels ++ [.opened item.file.pathId]) (w.openTail reader item (some snapshot)) := by
  intro pathId tail htail
  unfold openTail at htail ⊢
  rw [if_neg (by rw [HashMap.contains, hclosed]; simp)] at htail ⊢
  dsimp only at htail ⊢
  rw [HashMap.get_insert] at htail ⊢
  split_ifs at htail ⊢ with heq
  · cases htail
    have hzero : ∀ generation, countedSince pathId generation (labels ++ [.opened item.file.pathId]) = 0 := by
      intro generation
      rw [countedSince_opened, if_pos heq.symm]
    refine ⟨_, ?_, le_rfl, fun later _ => hzero later⟩
    rw [hzero, Nat.zero_min]
  · obtain ⟨generation, hget, hle, hnone⟩ := h pathId tail htail
    have hsame : ∀ generation, countedSince pathId generation (labels ++ [.opened item.file.pathId]) =
        countedSince pathId generation labels := by
      intro generation
      rw [countedSince_opened, if_neg fun h => heq h.symm]
    refine ⟨generation, ?_, hle, fun later hlt => ?_⟩
    · rw [hsame]
      exact hget
    · rw [hsame]
      exact hnone later hlt

/-- What opening a tail leaves. -/
theorem openTail_opened {item : AdapterWorkItem} {snapshot : FileSnapshot}
    (hclosed : w.tails.get item.file.pathId = none) :
    SameQueue w (w.openTail reader item (some snapshot)) ∧
      ∀ pathId tail, (w.openTail reader item (some snapshot)).tails.get pathId = some tail →
        w.tails.get pathId = some tail ∨ tail.generation ≤ u64Max := by
  unfold openTail
  rw [if_neg (by rw [HashMap.contains, hclosed]; simp)]
  refine ⟨⟨rfl, id⟩, fun pathId tail htail => ?_⟩
  dsimp only at htail
  rw [HashMap.get_insert] at htail
  split_ifs at htail
  · cases htail
    exact .inr (openGeneration_le _)
  · exact .inl htail

/-- Records that were read are not counted yet. -/
theorem Counted.polled (h : Counted labels w) (item : AdapterWorkItem) (records : List TailRecord) :
    Counted (labels ++ records.map (.polled item)) w := by
  intro pathId tail htail
  obtain ⟨generation, hget, hle, hnone⟩ := h pathId tail htail
  refine ⟨generation, ?_, hle, fun later hlt => ?_⟩
  · rw [countedSince_polled]
    exact hget
  · rw [countedSince_polled]
    exact hnone later hlt

theorem enqueueHistoryBarrier_queue (provider : Provider) (nowMs : ℤ) (acknowledgement : ℕ)
    (pending : PendingEvents) :
    (w.enqueueHistoryBarrier provider nowMs acknowledgement pending).1.deferredRecords = w.deferredRecords ∧
      TailsLater w (w.enqueueHistoryBarrier provider nowMs acknowledgement pending).1 := by
  have hsame : ∀ held, TailsLater w { w with heldHistoryBarrier := held } := fun held pathId tail htail =>
    ⟨tail, htail, fun hle => ⟨le_rfl, hle⟩, rfl⟩
  unfold enqueueHistoryBarrier
  split
  · exact ⟨rfl, (SameTails.refl w).later⟩
  · dsimp only
    split
    · exact ⟨rfl, (SameTails.refl w).later⟩
    · exact ⟨rfl, hsame _⟩

/-- What a step keeps: the invariants, and the balance of the queue. -/
structure Kept (labels l : List WorkerLabel) (s s' : WorkerState Discovery) : Prop where
  sound : s'.Sound
  counted : Counted (labels ++ l) s'.worker
  balance : s.worker.deferredRecords ++ polledRecords l = mergedRecords l ++ s'.worker.deferredRecords

/-- A step that leaves the queue alone, and its labels say nothing. -/
theorem Kept.quiet (hs : s.Sound) (hc : Counted labels s.worker) (hlater : TailsLater s.worker s'.worker)
    (hqueue : s'.worker.deferredRecords = s.worker.deferredRecords)
    (hidle : s.worker.deferredRecords = [] ∨ s'.worker.tails = s.worker.tails ∧ s'.stage ≠ .working)
    (hheld : s'.worker.heldHistoryBarrier ≠ none →
      (s'.stage = .waiting ∨ s'.stage = .stopped) ∧ s.worker.deferredRecords = []) :
    Kept labels [] s s' := by
  refine ⟨⟨fun hstage => ?_, fun h => ?_, TailsLater.generations hlater hs.generations, fun p hp => ?_⟩, ?_, ?_⟩
  · rcases hidle with hidle | ⟨-, hne⟩
    · rw [hqueue, hidle]
    · exact absurd hstage hne
  · rw [hqueue]
    exact hheld h
  · rw [hqueue] at hp
    rcases hidle with hidle | ⟨htails, -⟩
    · rw [hidle] at hp
      cases hp
    · rw [htails]
      exact hs.queued p hp
  · rw [List.append_nil]
    exact hc.later hs.generations hlater
  · show s.worker.deferredRecords ++ [] = [] ++ s'.worker.deferredRecords
    rw [List.append_nil, List.nil_append, hqueue]

theorem settleHistoryBarrier_held : w.settleHistoryBarrier.heldHistoryBarrier = none := by
  unfold settleHistoryBarrier
  split
  next h => exact h
  · rfl

theorem WorkerStep.kept (h : WorkerStep reader s l s') (hs : s.Sound) (hc : Counted labels s.worker) :
    Kept labels l s s' := by
  have hnone : s.stage = .working ∨ s.stage = .draining → s.worker.heldHistoryBarrier = none := by
    intro hstage
    by_contra hheld
    rcases hs.held hheld with ⟨hwaiting | hstopped, -⟩ <;> rcases hstage with hstage | hstage <;>
      simp_all
  cases h with
  | flush answers hstage =>
    exact .quiet hs hc (SameTails.refl _).later rfl (.inr ⟨rfl, by simp [hstage]⟩) hs.held
  | report provider state hstage =>
    refine .quiet hs hc (SameTails.refl _).later rfl ?_ hs.held
    rcases hstage with hstage | hstage
    · exact .inr ⟨rfl, by simp [hstage]⟩
    · exact .inl (hs.idle hstage)
  | resume committed hstage hfree =>
    have hsame := settleHistoryBarrier_same (w := s.worker)
    exact .quiet hs hc hsame.later hsame.queue (.inr ⟨hsame.tails, by simp⟩)
      fun h => absurd settleHistoryBarrier_held h
  | @merge item record waiting worker pending hstage hqueue hmerge =>
    obtain ⟨hmerged, -⟩ := mergeRecord_merged hmerge
    have htail : worker.deferredRecords = waiting := by rw [hmerged.queue, hqueue]; rfl
    have hmem : ∀ p ∈ waiting, p ∈ s.worker.deferredRecords := fun p hp => hqueue ▸ List.mem_cons_of_mem _ hp
    have hheld := hmerged.held (hnone (.inr hstage))
    refine ⟨⟨fun h => ?_, fun h => absurd hheld h, hmerged.tails ▸ hs.generations, fun p hp => ?_⟩, ?_, ?_⟩
    · rw [hstage] at h
      cases h
    · have hp : p ∈ waiting := htail ▸ hp
      show ∃ tail, worker.tails.get _ = some tail ∧ _
      rw [hmerged.tails]
      exact hs.queued p (hmem p hp)
    · obtain ⟨tail, hget, hgeneration⟩ := hs.queued (item, record) (hqueue ▸ List.mem_cons_self)
      exact hc.merged hmerged hget hgeneration
    · show s.worker.deferredRecords ++ [] = (item, record) :: worker.deferredRecords
      rw [htail, hqueue, List.append_nil]
  | @refuse item record waiting worker pending hstage hqueue hmerge =>
    obtain ⟨-, rfl, -⟩ := mergeRecord_refused hmerge
    refine ⟨⟨fun h => (by cases h), fun h => absurd (hnone (.inr hstage)) h, hs.generations, hs.queued⟩, ?_, ?_⟩
    · intro pathId tail htail
      obtain ⟨generation, hget, hle, hlater⟩ := hc pathId tail htail
      refine ⟨generation, ?_, hle, fun later hlt => ?_⟩
      · rw [countedSince_refused]
        exact hget
      · rw [countedSince_refused]
        exact hlater later hlt
    · exact List.append_nil _
  | drained hstage hqueue =>
    exact .quiet hs hc (SameTails.refl _).later rfl (.inl hqueue) fun h => absurd (hnone (.inr hstage)) h
  | perform task hstage _ =>
    obtain ⟨hlater, hqueue⟩ := @perform_later _ reader s.worker s.pending task
    exact .quiet hs hc hlater hqueue.queue (.inl (hs.idle hstage))
      fun h => absurd (hqueue.held (hnone (.inl hstage))) h
  | openTail item snapshot hstage hclosed =>
    obtain ⟨hqueue, hgenerations⟩ := @openTail_opened _ reader s.worker item snapshot hclosed
    have hempty := hqueue.queue.trans (hs.idle hstage)
    refine ⟨⟨fun _ => hempty, fun h => absurd (hqueue.held (hnone (.inl hstage))) h,
      fun pathId tail htail => ?_, fun p hp => ?_⟩, ?_, ?_⟩
    · rcases hgenerations pathId tail htail with htail | hle
      · exact hs.generations pathId tail htail
      · exact hle
    · rw [hempty] at hp
      cases hp
    · exact @Counted.opened _ reader _ _ hc item snapshot hclosed
    · show s.worker.deferredRecords ++ [] = [] ++ _
      rw [hempty, hs.idle hstage]
  | poll item boundary goalpost hstage =>
    have hpolled := @pollTail_polled _ reader s.worker item boundary goalpost
    have hqueue := hpolled.queue
    rw [hs.idle hstage, List.nil_append] at hqueue
    refine ⟨⟨fun h => (by cases h), fun h => absurd (hpolled.held (hnone (.inl hstage))) h,
      TailsLater.generations hpolled.later hs.generations, fun p hp => ?_⟩, ?_, ?_⟩
    · rw [hqueue] at hp
      obtain ⟨record, hrecord, rfl⟩ := List.mem_map.mp hp
      exact hpolled.generation (hs.generations _) record hrecord
    · exact (hc.later hs.generations hpolled.later).polled item _
    · rw [polledRecords_polled, mergedRecords_polled, hqueue, hs.idle hstage]
  | enqueueBarrier provider nowMs acknowledgement hstage =>
    obtain ⟨hqueue, hlater⟩ := enqueueHistoryBarrier_queue (w := s.worker) provider nowMs acknowledgement s.pending
    exact .quiet hs hc hlater hqueue (.inl (hs.idle hstage)) fun _ => ⟨.inl rfl, hs.idle hstage⟩
  | finish hstage =>
    exact .quiet hs hc (SameTails.refl _).later rfl (.inl (hs.idle hstage))
      fun h => absurd (hnone (.inl hstage)) h
  | stop committed hstage =>
    have hsame := @gracefulStop_same _ s.worker committed
    refine .quiet hs hc hsame.later hsame.queue (.inr ⟨hsame.tails, by simp⟩) fun h => ⟨.inr rfl, ?_⟩
    exact (hs.held fun hnone => h (hsame.held hnone)).2

/-- What a run keeps, from a state in which it is so. -/
theorem run_kept {s₀ : WorkerState Discovery} (h : Runs (WorkerStep reader) s₀ l s) (hs : s₀.Sound)
    (hc : Counted labels s₀.worker) : Kept labels l s₀ s := by
  induction h with
  | refl =>
    exact ⟨hs, (List.append_nil labels).symm ▸ hc, List.append_nil _⟩
  | @tail u v ls l _ hstep ih =>
    have hkept := hstep.kept ih.sound ih.counted
    refine ⟨hkept.sound, List.append_assoc _ _ _ ▸ hkept.counted, ?_⟩
    calc s₀.worker.deferredRecords ++ polledRecords (ls ++ l)
        = s₀.worker.deferredRecords ++ polledRecords ls ++ polledRecords l := by
          rw [polledRecords, List.filterMap_append, List.append_assoc]
          rfl
      _ = mergedRecords ls ++ (u.worker.deferredRecords ++ polledRecords l) := by
          rw [ih.balance, List.append_assoc]
      _ = mergedRecords (ls ++ l) ++ v.worker.deferredRecords := by
          rw [hkept.balance, ← List.append_assoc, mergedRecords, mergedRecords, mergedRecords,
            List.filterMap_append]

/-- While a record waits and is not merged, the worker stays as it is. -/
theorem WorkerStep.waits (h : WorkerStep reader s l s') (hs : s.Sound) (hqueue : s.worker.deferredRecords ≠ [])
    (hmerged : mergedRecords l = []) (hstage : s'.stage ≠ .stopped) : s'.worker = s.worker := by
  have hnone : s.worker.heldHistoryBarrier = none := by
    by_contra hheld
    exact hqueue (hs.held hheld).2
  cases h with
  | flush => rfl
  | report => rfl
  | resume => exact settleHistoryBarrier_none hnone
  | merge => cases hmerged
  | refuse _ _ hmerge => exact (mergeRecord_refused hmerge).2.1
  | drained => rfl
  | perform task hworking => exact absurd (hs.idle hworking) hqueue
  | openTail item snapshot hworking => exact absurd (hs.idle hworking) hqueue
  | poll item boundary goalpost hworking => exact absurd (hs.idle hworking) hqueue
  | enqueueBarrier provider nowMs acknowledgement hworking => exact absurd (hs.idle hworking) hqueue
  | finish => rfl
  | stop => exact absurd rfl hstage

/-- A worker that stopped does nothing. -/
theorem WorkerStep.running (h : WorkerStep reader s l s') : s.stage ≠ .stopped := by
  cases h <;> simp_all
  rename_i hstage
  rcases hstage with hstage | hstage <;> simp [hstage]

theorem run_waits (h : Runs (WorkerStep reader) s l s') (hs : s.Sound) (hc : Counted labels s.worker)
    (hqueue : s.worker.deferredRecords ≠ []) (hmerged : mergedRecords l = []) (hstage : s'.stage ≠ .stopped) :
    s'.worker = s.worker := by
  induction h with
  | refl => rfl
  | @tail u v ls l hrun hstep ih =>
    rw [mergedRecords, List.filterMap_append, List.append_eq_nil_iff] at hmerged
    have hworker := ih hmerged.1 hstep.running
    have hsound := (run_kept hrun hs hc).sound
    exact (hstep.waits hsound (hworker ▸ hqueue) hmerged.2 hstage).trans hworker

theorem start_sound (discovery : Discovery) (anchorMs completeGraceMs headlessInactivityMs nowMs : ℤ)
    (pending : PendingEvents) :
    (WorkerState.start discovery anchorMs completeGraceMs headlessInactivityMs nowMs pending).Sound :=
  ⟨fun _ => rfl, fun h => absurd rfl h, fun _ _ h => (by cases h), fun _ h => (by cases h)⟩

/-- What a step that merges a record does. -/
theorem WorkerStep.merged_inv {item : AdapterWorkItem} {record : TailRecord} {ordinal : Option ℕ}
    {events : List ProviderEvent} (h : WorkerStep reader s l s') (hl : .merged item record ordinal events ∈ l) :
    l = [.merged item record ordinal events] ∧
      (∃ waiting, s.worker.deferredRecords = (item, record) :: waiting) ∧
      ordinal = s.worker.recordOrdinal item record ∧ events = s.worker.recordEvents reader item record ∧
      s.worker.mergeRecord reader item record s.pending = (s'.worker, s'.pending, true) := by
  cases h with
  | merge hstage hqueue hmerge =>
    cases List.mem_singleton.mp hl
    exact ⟨rfl, ⟨_, hqueue⟩, rfl, rfl, hmerge⟩
  | refuse => simp at hl
  | openTail => simp at hl
  | poll => simp at hl
  | _ => cases hl

/-- What a step that refuses a record does. -/
theorem WorkerStep.refused_inv {item : AdapterWorkItem} {record : TailRecord} (h : WorkerStep reader s l s')
    (hl : .refused item record ∈ l) :
    s.worker.mergeRecord reader item record s.pending = (s'.worker, s'.pending, false) := by
  cases h with
  | refuse hstage hqueue hmerge =>
    cases List.mem_singleton.mp hl
    exact hmerge
  | merge => simp at hl
  | openTail => simp at hl
  | poll => simp at hl
  | _ => cases hl

/-- The ordinal with which a record of a run was merged: none if it carries an error, else the number of those
before it that carry none. -/
theorem merged_ordinal {s₀ : WorkerState Discovery} (h : Runs (WorkerStep reader) s₀ labels s) (hs : s₀.Sound)
    (hc : Counted [] s₀.worker) {before rest : List WorkerLabel} {item : AdapterWorkItem} {record : TailRecord}
    {ordinal : Option ℕ} {events : List ProviderEvent}
    (hlabels : labels = before ++ .merged item record ordinal events :: rest) :
    ordinal = if record.errorCode.isSome then none
      else some (min (countedSince item.file.pathId record.generation before) u64Max) := by
  obtain ⟨u, v, earlier, l₁, l₂, hrun, hstep, hbefore⟩ := h.step_at hlabels
  have hkept := run_kept hrun hs hc
  obtain ⟨hl, ⟨waiting, hqueue⟩, hordinal, -, -⟩ := hstep.merged_inv (List.mem_append_right _ List.mem_cons_self)
  obtain rfl : l₁ = [] := by
    have hlength := congrArg List.length hl
    simp only [List.length_append, List.length_cons, List.length_nil] at hlength
    exact List.length_eq_zero_iff.mp (by omega)
  rw [List.append_nil] at hbefore
  obtain ⟨tail, htail, hgeneration⟩ := hkept.sound.queued (item, record) (hqueue ▸ List.mem_cons_self)
  rw [hordinal, recordOrdinal, hkept.counted.ordinal htail hgeneration, List.nil_append, hbefore]

/-- Emitting what is due is all or nothing, and all exactly if all of it fits. -/
theorem emitDueLifecycleEvents_spec (nowMs : ℤ) (pending : PendingEvents) :
    (mergeEach pending (w.dueSlots nowMs) = none ∧
      ∃ pending', w.emitDueLifecycleEvents nowMs pending = (w, pending', false) ∧
        pending' = { pending with diagnostics := pending'.diagnostics }) ∨
    ∃ pending', mergeEach pending (w.dueSlots nowMs) = some pending' ∧
      w.emitDueLifecycleEvents nowMs pending = ({ w with synthesis := w.synthesisAfterDue nowMs }, pending', true) := by
  unfold emitDueLifecycleEvents
  dsimp only
  split
  next synthesis trial hmerge =>
    obtain ⟨hfits, rfl⟩ := mergeSynthesized_fits hmerge
    exact .inr ⟨trial, hfits, rfl⟩
  next hmerge => exact .inl ⟨mergeSynthesized_refuses hmerge, _, rfl, rfl⟩

/-- In a cycle that merges, the record in front is merged if its events fit, and refused if they do not. -/
theorem front_decided {item : AdapterWorkItem} {record : TailRecord} {waiting : List (AdapterWorkItem × TailRecord)}
    (hstage : s.stage = .draining) (hqueue : s.worker.deferredRecords = (item, record) :: waiting) :
    (∃ s', WorkerStep reader s [.refused item record] s') ∧
        mergeEach s.pending (s.worker.recordSlots reader item record) = none ∨
      ∃ s', WorkerStep reader s [.merged item record (s.worker.recordOrdinal item record)
          (s.worker.recordEvents reader item record)] s' ∧
        mergeEach s.pending (s.worker.recordSlots reader item record) = some s'.pending := by
  rcases hmerge : s.worker.mergeRecord reader item record s.pending with ⟨worker, pending, _ | _⟩
  · exact .inl ⟨⟨_, .refuse hstage hqueue hmerge⟩, (mergeRecord_refused hmerge).1⟩
  · exact .inr ⟨_, .merge hstage hqueue hmerge, (mergeRecord_merged hmerge).2⟩

/-- The loop that merges what waits is a run: it merges records from the front, and either the queue is empty
after it, or the record then in front does not fit and the cycle ends. -/
theorem drainDeferredRecords_runs {fuel : ℕ} {pending : PendingEvents}
    (hfuel : w.deferredRecords.length ≤ fuel) :
    ∃ l, Runs (WorkerStep reader) ⟨w, pending, .draining⟩ l
      ⟨(drainDeferredRecords reader fuel w pending).1, (drainDeferredRecords reader fuel w pending).2.1,
        if (drainDeferredRecords reader fuel w pending).2.2 then .draining else .waiting⟩ ∧
      ((drainDeferredRecords reader fuel w pending).2.2 = true →
        (drainDeferredRecords reader fuel w pending).1.deferredRecords = []) := by
  induction fuel generalizing w pending with
  | zero =>
    have hempty : w.deferredRecords = [] := List.length_eq_zero_iff.mp (by omega)
    refine ⟨[], ?_, fun _ => hempty⟩
    simp only [drainDeferredRecords, hempty, List.isEmpty_nil, if_true]
    exact .refl _
  | succ fuel ih =>
    cases hqueue : w.deferredRecords with
    | nil =>
      have hdone : drainDeferredRecords reader (fuel + 1) w pending = (w, pending, true) := by
        simp only [drainDeferredRecords, hqueue]
      rw [hdone]
      exact ⟨[], .refl _, fun _ => hqueue⟩
    | cons front waiting =>
      obtain ⟨item, record⟩ := front
      rcases hmerge : w.mergeRecord reader item record pending with ⟨w', pending', _ | _⟩
      · have hdone : drainDeferredRecords reader (fuel + 1) w pending = (w', pending', false) := by
          simp only [drainDeferredRecords, hqueue, hmerge]
        rw [hdone]
        exact ⟨_, .one (.refuse rfl hqueue hmerge), fun h => by cases h⟩
      · have hdone : drainDeferredRecords reader (fuel + 1) w pending =
            drainDeferredRecords reader fuel w' pending' := by
          simp only [drainDeferredRecords, hqueue, hmerge]
        have hleft : w'.deferredRecords.length ≤ fuel := by
          rw [(mergeRecord_merged hmerge).1.queue, hqueue]
          rw [hqueue] at hfuel
          exact Nat.le_of_succ_le_succ hfuel
        obtain ⟨l, hrun, hempty⟩ := @ih w' pending' hleft
        rw [hdone]
        exact ⟨_, (Runs.one (.merge rfl hqueue hmerge)).trans hrun, hempty⟩

end Invariants

/-! ### Exactly once -/

/-- Over every run of the worker: the records that were read are those that were merged, in the order in which
they were read, and those that wait;
the ordinal with which a record was merged is the number of the records before it in its generation of the file
exactly when none of them carries an error;
in a cycle that merges, the record in front is merged if its events fit, all in turn, and else it is refused;
merging a record merges each event that parsing it in this state gives once, in order, and takes it from the queue;
a refused record does not fit, and it leaves the worker as it was, and the buffer but for its counters;
until the record in front is merged the worker stays as it is, however often it is refused and whatever the
buffer is flushed;
and what is due is emitted if all of it fits, and else nothing of it. -/
theorem provider_backpressure {reader : RecordReader Discovery} {discovery : Discovery}
    {anchorMs completeGraceMs headlessInactivityMs nowMs : ℤ} {pending : PendingEvents}
    {labels : List WorkerLabel} {s : WorkerState Discovery}
    (h : Runs (WorkerStep reader)
      (.start discovery anchorMs completeGraceMs headlessInactivityMs nowMs pending) labels s) :
    polledRecords labels = mergedRecords labels ++ s.worker.deferredRecords ∧
    (∀ before item record ordinal events rest,
      labels = before ++ .merged item record (some ordinal) events :: rest →
      (ordinal = (recordsSince item.file.pathId record.generation before).length ↔
        (∀ earlier ∈ recordsSince item.file.pathId record.generation before, earlier.errorCode = none) ∧
          (recordsSince item.file.pathId record.generation before).length ≤ u64Max)) ∧
    (∀ item record waiting, s.stage = .draining → s.worker.deferredRecords = (item, record) :: waiting →
      (∃ s', WorkerStep reader s [.refused item record] s') ∧
          mergeEach s.pending (s.worker.recordSlots reader item record) = none ∨
        ∃ s', WorkerStep reader s [.merged item record (s.worker.recordOrdinal item record)
            (s.worker.recordEvents reader item record)] s' ∧
          mergeEach s.pending (s.worker.recordSlots reader item record) = some s'.pending) ∧
    (∀ item record ordinal events s', WorkerStep reader s [.merged item record ordinal events] s' →
      s.worker.deferredRecords = (item, record) :: s'.worker.deferredRecords ∧
      events = s.worker.recordEvents reader item record ∧
      (s.worker.recordSlots reader item record).map (·.event) = events ∧
      mergeEach s.pending (s.worker.recordSlots reader item record) = some s'.pending) ∧
    (∀ item record s', WorkerStep reader s [.refused item record] s' →
      mergeEach s.pending (s.worker.recordSlots reader item record) = none ∧
      s'.worker = s.worker ∧ s'.pending = { s.pending with diagnostics := s'.pending.diagnostics }) ∧
    (∀ l s', Runs (WorkerStep reader) s l s' → s.worker.deferredRecords ≠ [] → mergedRecords l = [] →
      s'.stage ≠ .stopped → s'.worker = s.worker) ∧
    ∀ nowMs, (s.worker.dueSlots nowMs).map (·.event) =
        (s.worker.synthesis.advanceLifecycle nowMs).2.map (·.event) ∧
      (mergeEach s.pending (s.worker.dueSlots nowMs) = none ∧
        (∃ pending', s.worker.emitDueLifecycleEvents nowMs s.pending = (s.worker, pending', false) ∧
          pending' = { s.pending with diagnostics := pending'.diagnostics }) ∨
      ∃ pending', mergeEach s.pending (s.worker.dueSlots nowMs) = some pending' ∧
        s.worker.emitDueLifecycleEvents nowMs s.pending =
          ({ s.worker with synthesis := s.worker.synthesisAfterDue nowMs }, pending', true)) := by
  have hstart := start_sound discovery anchorMs completeGraceMs headlessInactivityMs nowMs pending
  have hcounted : Counted [] (WorkerState.start discovery anchorMs completeGraceMs headlessInactivityMs nowMs
    pending).worker := fun _ _ h => (by cases h)
  have hkept := run_kept h hstart hcounted
  refine ⟨hkept.balance, ?_, fun item record waiting => front_decided, ?_, ?_, ?_,
    fun nowMs => ⟨AdapterProviderWorker.dueSlots_events nowMs, emitDueLifecycleEvents_spec nowMs s.pending⟩⟩
  · intro before item record ordinal events rest hlabels
    have hordinal := merged_ordinal h hstart hcounted hlabels
    split_ifs at hordinal with herror
    rw [Option.some.inj hordinal, countedSince]
    generalize recordsSince item.file.pathId record.generation before = since
    have hle := List.length_filter_le (fun record : TailRecord => decide (record.errorCode = none)) since
    have hall : (since.filter fun record => decide (record.errorCode = none)).length = since.length ↔
        ∀ earlier ∈ since, earlier.errorCode = none := by
      rw [List.length_filter_eq_length_iff]
      simp
    rw [← hall]
    omega
  · intro item record ordinal events s' hstep
    obtain ⟨-, ⟨waiting, hqueue⟩, -, hevents, hmerge⟩ := hstep.merged_inv (List.mem_singleton_self _)
    obtain ⟨hmerged, hfits⟩ := AdapterProviderWorker.mergeRecord_merged hmerge
    refine ⟨?_, hevents, AdapterProviderWorker.recordSlots_events.trans hevents.symm, hfits⟩
    rw [hmerged.queue, hqueue]
    rfl
  · intro item record s' hstep
    exact AdapterProviderWorker.mergeRecord_refused (hstep.refused_inv (List.mem_singleton_self _))
  · intro l s' hrun hqueue hmerged hstage
    exact run_waits hrun hkept.sound hkept.counted hqueue hmerged hstage

/-! ### A line that is too long -/

/-- The file of a rollout. -/
def rolloutItem : AdapterWorkItem where
  provider := .codex
  root := ⟨[]⟩
  file := ⟨⟨[]⟩, ⟨[.normal (.text "r.jsonl")]⟩, 0, 0⟩

/-- How records are read that are no JSON: each is malformed, and states no facts. -/
def textReader : RecordReader Unit where
  parseAdapterRecord := fun _ item record =>
    [.malformed item.provider "r.jsonl" record.generation record.offset (record.errorCode.getD "codex_json")]
  extractLine := fun _ _ _ => some []
  bootstrapEvent := fun _ _ _ => none
  stableHistoryArtifactId := fun _ => ""

/-- A file with a line that is one byte too long and a short one. -/
@[irreducible] def longThenShort : List UInt8 :=
  List.replicate (maxTailRecordBytes + 1) 97 ++ newlineByte :: [97, newlineByte]

theorem longThenShort_length : longThenShort.length = maxTailRecordBytes + 4 := by
  simp [longThenShort]

/-- The records of a line that is too long and a short one. -/
theorem recordsFrom_long {line : List UInt8} (hline : newlineByte ∉ line) (hlong : maxTailRecordBytes < line.length) :
    recordsFrom 0 (0, []) (line ++ newlineByte :: [97, newlineByte]) =
      [.malformed 0 0 recordTooLongError, .data (line.length + 1) 0 [97]] := by
  have hshort : newlineByte ∉ [(97 : UInt8)] := by decide
  have hfits : ¬maxTailRecordBytes < ([(97 : UInt8)]).length := by decide
  rw [recordsFrom_line hline]
  show _ :: recordsFrom 0 _ ([97] ++ newlineByte :: []) = _
  rw [recordsFrom_line hshort, recordsFrom_nil, openRecord_nextLine]
  simp only [lineRecord, nextLine, List.nil_append, Nat.zero_add, if_pos hlong, if_neg hfits]
  rfl

theorem longThenShort_records : recordsFrom 0 (0, []) longThenShort =
    [.malformed 0 0 recordTooLongError, .data (maxTailRecordBytes + 2) 0 [97]] := by
  have hline : newlineByte ∉ List.replicate (maxTailRecordBytes + 1) (97 : UInt8) := by
    intro h
    exact absurd (List.eq_of_mem_replicate h) (by decide)
  have hlong : maxTailRecordBytes < (List.replicate (maxTailRecordBytes + 1) (97 : UInt8)).length := by
    rw [List.length_replicate]
    exact Nat.lt_succ_self _
  rw [longThenShort, recordsFrom_long hline hlong, List.length_replicate]

section LongLine

open AdapterProviderWorker

variable {w : AdapterProviderWorker Unit} {s : WorkerState Unit} {t : TailFile} {records : List TailRecord}

/-- Malformed records always fit. -/
theorem mergeSynthesized_malformed (fallback : ObservationOrigin) {events : List ProviderEvent}
    (h : ∀ event ∈ events, isMalformed event = true) (synthesis : Synthesis) (pending : PendingEvents) :
    (w.mergeSynthesized fallback events synthesis pending).2.2 = true := by
  induction events generalizing synthesis pending with
  | nil => rfl
  | cons event events ih =>
    have hevent := h event List.mem_cons_self
    have hrest := fun e he => h e (List.mem_cons_of_mem _ he)
    cases event with
    | malformed provider pathDisplay generation byteOffset errorCode =>
      simp only [mergeSynthesized]
      split
      next hmerge =>
        simp only [PendingEvents.mergeWithOrigin, PendingEvents.mergeMalformed] at hmerge
        split_ifs at hmerge
        · cases (Prod.mk.inj hmerge).2
        · cases (Prod.mk.inj hmerge).2
      · exact ih hrest _ _
    | _ => cases hevent

theorem textReader_merges (item : AdapterWorkItem) (record : TailRecord) (pending : PendingEvents) :
    (w.mergeRecord textReader item record pending).2.2 = true := by
  have hevents : ∀ origin, ∀ event ∈ (w.parseRecord textReader item record origin).2, isMalformed event = true := by
    intro origin event hevent
    unfold parseRecord at hevent
    dsimp only [textReader] at hevent
    split_ifs at hevent
    · rw [List.mem_singleton.mp hevent]
      rfl
    · rw [List.mem_singleton.mp hevent]
      rfl
  simp only [mergeRecord]
  have haccepted := mergeSynthesized_malformed (w := (w.parseRecord textReader item record
    (w.recordOrigin textReader item (some record)).1).1) (w.recordOrigin textReader item (some record)).1
    (hevents (w.recordOrigin textReader item (some record)).1)
    (w.parseRecord textReader item record (w.recordOrigin textReader item (some record)).1).1.synthesis pending
  split
  next hmerge =>
    rw [hmerge] at haccepted
    cases haccepted
  · rfl

/-- All records that wait can be merged. -/
theorem textReader_drains (h : s.stage = .draining) :
    ∃ l s', Runs (WorkerStep textReader) s l s' ∧ s'.stage = .draining ∧ s'.worker.deferredRecords = [] ∧
      s'.worker.tails = s.worker.tails ∧ mergedRecords l = s.worker.deferredRecords ∧
      ∀ label ∈ l, ∀ pathId, label ≠ .opened pathId := by
  generalize hn : s.worker.deferredRecords.length = n
  induction n generalizing s with
  | zero =>
    have hempty := List.length_eq_zero_iff.mp hn
    exact ⟨[], s, .refl s, h, hempty, rfl, hempty.symm, by simp⟩
  | succ n ih =>
    cases hqueue : s.worker.deferredRecords with
    | nil => simp [hqueue] at hn
    | cons front waiting =>
      obtain ⟨item, record⟩ := front
      have hall := textReader_merges (w := s.worker) item record s.pending
      rcases hmerge : s.worker.mergeRecord textReader item record s.pending with ⟨worker, pending, accepted⟩
      rw [hmerge] at hall
      obtain rfl : accepted = true := hall
      obtain ⟨hmerged, -⟩ := mergeRecord_merged hmerge
      have htail : worker.deferredRecords = waiting := by
        rw [hmerged.queue, hqueue]
        rfl
      obtain ⟨l, s', hrun, hstage, hempty, htails, hl, hopened⟩ := @ih { s with
        worker
        pending } h (by
          show worker.deferredRecords.length = n
          rw [htail]
          rw [hqueue] at hn
          exact Nat.succ.inj hn)
      refine ⟨_, s', (Runs.one (.merge h hqueue hmerge)).trans hrun, hstage, hempty, htails.trans hmerged.tails,
        ?_, ?_⟩
      · show (item, record) :: mergedRecords l = _
        rw [hl]
        exact congrArg _ htail
      · intro label hlabel pathId
        rcases List.mem_append.mp hlabel with hlabel | hlabel
        · rw [List.mem_singleton.mp hlabel]
          exact fun h => by cases h
        · exact hopened label hlabel pathId

/-- What a poll that gives records leaves. -/
theorem pollTail_some {item : AdapterWorkItem} {boundary : ReadBoundary} {goalpost : ℕ} {t' : TailFile}
    (htail : w.tails.get item.file.pathId = some t) (hpoll : t.pollToGoalpost boundary goalpost = (t', some records)) :
    (w.pollTail textReader item boundary goalpost).2 = records ∧
      (w.pollTail textReader item boundary goalpost).1.tails.get item.file.pathId = some t' ∧
      (w.pollTail textReader item boundary goalpost).1.deferredRecords =
        w.deferredRecords ++ records.map fun record => (item, record) := by
  unfold pollTail
  rw [htail]
  dsimp only
  rw [hpoll]
  exact ⟨rfl, HashMap.get_insert_self _ _ _, rfl⟩

/-- Reads the file chunk by chunk: what was read is merged. -/
theorem textReader_reads {content : List UInt8} (hlen : content.length ≤ u64Max) (n : ℕ)
    (hstage : s.stage = .working) (hqueue : s.worker.deferredRecords = [])
    (htail : s.worker.tails.get 0 = some t)
    (hreading : Reading content (1, 2) 0 0 content.length t records) :
    ∃ l s' t' read, Runs (WorkerStep textReader) s l s' ∧ s'.stage = .working ∧ s'.worker.deferredRecords = [] ∧
      s'.worker.tails.get 0 = some t' ∧
      Reading content (1, 2) 0 0 content.length t' (records ++ read) ∧
      t'.offset = min (t.offset + n * maxTailChunkBytes) content.length ∧
      mergedRecords l = read.map (fun record => (rolloutItem, record)) ∧
      ∀ label ∈ l, ∀ pathId, label ≠ .opened pathId := by
  induction n generalizing s t records with
  | zero =>
    refine ⟨[], s, t, [], .refl s, hstage, hqueue, htail, by simpa using hreading, ?_, rfl, by simp⟩
    have hthere := hreading.there
    omega
  | succ n ih =>
    obtain ⟨hsome, hoffset⟩ := hreading.poll_whole hlen
    have hgrow : ∀ size, (TailOp.pollToGoalpost size size size (some maxTailChunkBytes)).grow size size =
        some size := fun size => if_pos ⟨le_rfl, le_rfl, le_rfl⟩
    obtain ⟨hreading', -⟩ := hreading.step hlen (hgrow content.length)
    change Reading _ _ _ _ _ (t.pollToGoalpost (wholeFile content (1, 2)) content.length).1
      (records ++ (t.pollToGoalpost (wholeFile content (1, 2)) content.length).2.getD []) at hreading'
    rcases hpoll : t.pollToGoalpost (wholeFile content (1, 2)) content.length with ⟨t₁, _ | polled⟩
    · rw [hpoll] at hsome
      cases hsome
    rw [hpoll] at hoffset hreading'
    obtain ⟨hpolled, htail₁, hwaiting⟩ := @pollTail_some s.worker t polled rolloutItem _ _ t₁ htail hpoll
    have hstep := @WorkerStep.poll _ textReader s rolloutItem (wholeFile content (1, 2))
      content.length hstage
    rw [hpolled] at hstep
    obtain ⟨l₁, u, hdrain, hdraining, hempty, htails, hmerged, hopened⟩ := textReader_drains (s := { s with
      worker := (s.worker.pollTail textReader rolloutItem (wholeFile content (1, 2))
        content.length).1
      stage := .draining }) rfl
    obtain ⟨l₂, s', t', read, hrun, hworking, hdone, htail', hread, hend, hmerged', hopened'⟩ :=
      @ih { u with stage := .working } t₁ (records ++ polled) rfl hempty (htails ▸ htail₁) hreading'
    refine ⟨_, s', t', polled ++ read, (((Runs.one hstep).trans hdrain).tail (.drained hdraining hempty)).trans hrun,
      hworking, hdone, htail', by rwa [← List.append_assoc], ?_, ?_, ?_⟩
    · rw [hend, hoffset, Nat.succ_mul]
      omega
    · have hfront : mergedRecords l₁ = polled.map fun record => (rolloutItem, record) := by
        rw [hmerged, hwaiting, hqueue, List.nil_append]
      rw [mergedRecords_append, mergedRecords_append, mergedRecords_append, mergedRecords_polled, hfront, hmerged',
        List.map_append]
      simp [mergedRecords]
    · intro label hlabel pathId
      simp only [List.mem_append, List.mem_map, List.not_mem_nil, or_false] at hlabel
      rcases hlabel with (⟨record, -, rfl⟩ | hlabel) | hlabel
      · exact fun h => by cases h
      · exact hopened label hlabel pathId
      · exact hopened' label hlabel pathId

/-- A run that opens a file, reads it and merges its records. -/
theorem textReader_run {content : List UInt8} (hlen : content.length ≤ u64Max)
    (hsize : content.length ≤ 5 * maxTailChunkBytes) :
    ∃ l s, Runs (WorkerStep textReader) (.start () 0 30 600 1 (.new {})) (.opened 0 :: l) s ∧
    mergedRecords l = (recordsFrom 0 (0, []) content).map (fun record => (rolloutItem, record)) ∧
    ∀ label ∈ l, ∀ pathId, label ≠ .opened pathId := by
  let start : WorkerState Unit := .start () 0 30 600 1 (.new {})
  let snapshot : FileSnapshot := ⟨1, 2, content.length⟩
  have hresume : WorkerStep textReader start [] { start with stage := .draining } :=
    .resume false rfl (.inl rfl)
  have hdrained : WorkerStep textReader { start with stage := .draining } [] { start with stage := .working } :=
    .drained rfl rfl
  have hopen : WorkerStep textReader { start with stage := .working } [.opened 0] _ :=
    .openTail rolloutItem snapshot rfl rfl
  have hreading : Reading content (1, 2) 0 0 content.length (TailFile.open snapshot false 0) [] :=
    reading_open (1, 2) 0 false le_rfl
  have htail : (start.worker.openTail textReader rolloutItem (some snapshot)).tails.get 0 =
      some (TailFile.open snapshot false 0) := rfl
  obtain ⟨l, s, t', read, hrun, -, -, -, hread, hend, hmerged, hopened⟩ := textReader_reads hlen 5
    (s := { start with
      worker := start.worker.openTail textReader rolloutItem (some snapshot)
      stage := .working }) rfl rfl htail hreading
  refine ⟨l, s, (((Runs.one hresume).tail hdrained).tail hopen).trans hrun, ?_, hopened⟩
  have hall : t'.offset = content.length := by
    rw [hend, show (TailFile.open snapshot false 0).offset = 0 from rfl]
    omega
  have hgiven := hread.given
  rw [hall, List.take_length, List.drop_zero, List.nil_append] at hgiven
  rw [hmerged, hgiven]

/-- The records of a stretch without an open are those that were merged. -/
theorem recordsSince_opened {pathId generation : ℕ} {l : List WorkerLabel}
    (h : ∀ label ∈ l, ∀ opened, label ≠ .opened opened) :
    recordsSince pathId generation (.opened pathId :: l) =
      ((mergedRecords l).filter fun p => p.1.file.pathId = pathId ∧ p.2.generation = generation).map Prod.snd := by
  have hnote : ∀ since, l.foldl (noteRecord pathId generation) since = since ++
      ((mergedRecords l).filter fun p => p.1.file.pathId = pathId ∧ p.2.generation = generation).map Prod.snd := by
    induction l with
    | nil => simp [mergedRecords]
    | cons label l ih =>
      intro since
      have hrest := fun a ha => h a (List.mem_cons_of_mem _ ha)
      rw [List.foldl_cons, ih hrest]
      cases label with
      | opened opened => exact absurd rfl (h _ List.mem_cons_self opened)
      | merged item record ordinal events =>
        simp only [noteRecord, mergedRecords, List.filterMap_cons, WorkerLabel.mergedRecord, List.filter_cons]
        split_ifs <;> simp_all
      | _ => rfl
  show l.foldl (noteRecord pathId generation) (if pathId = pathId then [] else []) = _
  rw [if_pos rfl, hnote, List.nil_append]

/-- The record after a line that is too long is the second one of its file, and gets the ordinal 0. -/
theorem ordinals_skip_errors :
    ¬∀ (labels : List WorkerLabel) (s : WorkerState Unit),
      Runs (WorkerStep textReader) (.start () 0 30 600 1 (.new {})) labels s →
      ∀ before item record ordinal events rest, labels = before ++ .merged item record (some ordinal) events :: rest →
        ordinal = (recordsSince item.file.pathId record.generation before).length := by
  intro h
  have hlen : longThenShort.length ≤ u64Max := longThenShort_length ▸ by decide
  have hsize : longThenShort.length ≤ 5 * maxTailChunkBytes := longThenShort_length ▸ by decide
  obtain ⟨l, s, hrun, hmerged, hopened⟩ := textReader_run hlen hsize
  rw [longThenShort_records] at hmerged
  obtain ⟨l₁, a, l₂, rfl, hnone, ha, hrest⟩ := List.filterMap_eq_cons_iff.mp hmerged
  obtain ⟨l₃, b, l₄, rfl, hnone', hb, -⟩ := List.filterMap_eq_cons_iff.mp hrest
  have hbefore : mergedRecords (l₁ ++ a :: l₃) = [(rolloutItem, .malformed 0 0 recordTooLongError)] := by
    rw [mergedRecords, List.filterMap_append, List.filterMap_eq_nil_iff.mpr hnone, List.filterMap_cons, ha,
      List.filterMap_eq_nil_iff.mpr hnone']
    rfl
  have hsince : recordsSince 0 0 (.opened 0 :: (l₁ ++ a :: l₃)) = [.malformed 0 0 recordTooLongError] := by
    rw [recordsSince_opened fun label hlabel => hopened label (by
      rcases List.mem_append.mp hlabel with hlabel | hlabel
      · exact List.mem_append_left _ hlabel
      · refine List.mem_append_right _ ?_
        rcases List.mem_cons.mp hlabel with rfl | hlabel
        · exact List.mem_cons_self
        · exact List.mem_cons_of_mem _ (List.mem_append_left _ hlabel)), hbefore]
    rfl
  cases b with
  | merged item record ordinal events =>
    obtain ⟨rfl, rfl⟩ := Prod.mk.inj (Option.some.inj hb)
    have hlabels : .opened 0 :: (l₁ ++ a :: (l₃ ++ .merged rolloutItem (.data (maxTailRecordBytes + 2) 0 [97])
        ordinal events :: l₄)) = .opened 0 :: (l₁ ++ a :: l₃) ++ .merged rolloutItem
        (.data (maxTailRecordBytes + 2) 0 [97]) ordinal events :: l₄ := by
      simp
    have hordinal := merged_ordinal hrun (start_sound () 0 30 600 1 (.new {})) (fun _ _ h => by cases h) hlabels
    have hzero : ordinal = some 0 := by
      rw [hordinal]
      show some (min (countedSince 0 0 _) u64Max) = _
      rw [countedSince, hsince]
      rfl
    subst hzero
    have hone := h _ s hrun _ rolloutItem _ 0 events l₄ hlabels
    change 0 = (recordsSince 0 0 _).length at hone
    rw [hsince] at hone
    cases hone
  | _ => cases hb

end LongLine

/-! ### A record that does not fit at once -/

/-- How records are read that are turns: the first one starts a turn, the others abort it. -/
def turnReader : RecordReader Unit where
  parseAdapterRecord := fun _ _ _ => []
  extractLine := fun _ ordinal _ =>
    some [if ordinal = 0 then .codexTurnStarted "r" 20 else .codexTurnAborted "r" 30]
  bootstrapEvent := fun _ _ _ => none
  stableHistoryArtifactId := fun _ => ""

/-- The record that starts the turn. -/
def startRecord : TailRecord := .data 0 0 [97]

/-- The record that aborts it. -/
def abortRecord : TailRecord := .data 2 0 [98]

/-- Before the first cycle, with a buffer that has room for one event. -/
def narrowStart : WorkerState Unit := .start () 0 30 600 1 (.withCapacity 1 {})

/-- After both records were read. -/
def turnsRead : WorkerState Unit where
  worker := ((narrowStart.worker.openTail turnReader rolloutItem (some ⟨1, 2, 4⟩)).pollTail turnReader rolloutItem
    (wholeFile [97, newlineByte, 98, newlineByte] (1, 2)) 4).1
  pending := narrowStart.pending
  stage := .draining

/-- After the first one was merged. -/
def turnStarted : WorkerState Unit where
  worker := (turnsRead.worker.mergeRecord turnReader rolloutItem startRecord turnsRead.pending).1
  pending := (turnsRead.worker.mergeRecord turnReader rolloutItem startRecord turnsRead.pending).2.1
  stage := .draining

/-- After the second one was refused. -/
def abortRefused : WorkerState Unit where
  worker := (turnStarted.worker.mergeRecord turnReader rolloutItem abortRecord turnStarted.pending).1
  pending := (turnStarted.worker.mergeRecord turnReader rolloutItem abortRecord turnStarted.pending).2.1
  stage := .waiting

/-- After a flush, in the next cycle. -/
def abortRetried : WorkerState Unit where
  worker := abortRefused.worker.settleHistoryBarrier
  pending := (abortRefused.pending.flushToSender fun _ => .ok).1
  stage := .draining

theorem turnStarted_runs : Runs (WorkerStep turnReader) narrowStart
    [.opened 0, .polled rolloutItem startRecord, .polled rolloutItem abortRecord,
      .merged rolloutItem startRecord (some 0) (turnsRead.worker.recordEvents turnReader rolloutItem startRecord)]
    turnStarted := by
  have hresume : WorkerStep turnReader narrowStart [] { narrowStart with stage := .draining } :=
    .resume false rfl (.inl rfl)
  have hdrained : WorkerStep turnReader { narrowStart with stage := .draining } []
      { narrowStart with stage := .working } := .drained rfl rfl
  have hopen : WorkerStep turnReader { narrowStart with stage := .working } [.opened 0]
      { narrowStart with
        worker := narrowStart.worker.openTail turnReader rolloutItem (some ⟨1, 2, 4⟩)
        stage := .working } := .openTail rolloutItem ⟨1, 2, 4⟩ rfl rfl
  have hpoll : WorkerStep turnReader _ [.polled rolloutItem startRecord, .polled rolloutItem abortRecord] turnsRead :=
    .poll (s := { narrowStart with
      worker := narrowStart.worker.openTail turnReader rolloutItem (some ⟨1, 2, 4⟩)
      stage := .working }) rolloutItem (wholeFile [97, newlineByte, 98, newlineByte] (1, 2)) 4 rfl
  have hmerge : WorkerStep turnReader turnsRead _ turnStarted :=
    .merge rfl rfl (Prod.ext rfl (Prod.ext rfl (by decide +kernel)))
  exact ((((Runs.one hresume).tail hdrained).tail hopen).tail hpoll).tail hmerge

theorem abort_refused : WorkerStep turnReader turnStarted [.refused rolloutItem abortRecord] abortRefused :=
  .refuse rfl rfl (Prod.ext rfl (Prod.ext rfl (by decide +kernel)))

theorem abortRetried_runs : Runs (WorkerStep turnReader) abortRefused [] abortRetried := by
  have hflush : WorkerStep turnReader abortRefused [] _ := .flush (fun _ => .ok) rfl
  exact (Runs.one hflush).tail (.resume false rfl (.inl rfl))

/-- The abort does not fit behind the start of its turn. The worker stays as it was, and in the next cycle, after
a flush, it merges the same event. -/
theorem provider_backpressure_retry :
    mergeEach turnStarted.pending (turnStarted.worker.recordSlots turnReader rolloutItem abortRecord) = none ∧
    abortRefused.worker = turnStarted.worker ∧ abortRetried.worker = turnStarted.worker ∧
    ∃ s, WorkerStep turnReader abortRetried [.merged rolloutItem abortRecord (some 1)
        (turnStarted.worker.recordEvents turnReader rolloutItem abortRecord)] s ∧
      mergeEach abortRetried.pending (turnStarted.worker.recordSlots turnReader rolloutItem abortRecord) =
        some s.pending ∧ s.pending.lane.length = 1 := by
  have hrefused := turnStarted_runs.tail abort_refused
  have hretried := hrefused.trans abortRetried_runs
  obtain ⟨hnone, hworker, -⟩ := (provider_backpressure turnStarted_runs).2.2.2.2.1 _ _ _ abort_refused
  have hwaits := (provider_backpressure turnStarted_runs).2.2.2.2.2.1 _ _
    ((Runs.one abort_refused).trans abortRetried_runs) (by decide +kernel) rfl (by decide)
  refine ⟨hnone, hworker, hwaits, ?_⟩
  rcases (provider_backpressure hretried).2.2.1 rolloutItem abortRecord [] rfl rfl with ⟨-, hfull⟩ | ⟨s, hstep, hfits⟩
  · exact absurd hfull (by decide +kernel)
  · have hroom : (mergeEach abortRetried.pending
        (abortRetried.worker.recordSlots turnReader rolloutItem abortRecord)).map (·.lane.length) = some 1 := by
      decide +kernel
    rw [hfits] at hroom
    rw [hwaits] at hstep hfits
    exact ⟨s, hstep, hfits, Option.some.inj hroom⟩

end HerdrTop
