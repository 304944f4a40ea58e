import HerdrTop.Reducer.Atomicity
import HerdrTop.Store.Writer

/-!
# Controller requests

A request is decoded, validated against the reducer, committed and handed to the writer, in this order;
each stage that fails answers and leaves. A name that the writer's mirror has is a duplicate before the
rest of the request is looked at.

The parser of JSON and the rounding of a progress are parameters.

## What is proved

`requests_answered_truthfully`: what each answer means, and that the event of a name is committed at
most once until the client learns that the row of the name is deleted.
-/

namespace HerdrTop

/-! ### Decoding -/

/-- A number as the JSON parser keeps it. -/
inductive JsonNumber
  | posInt (value : UInt64)
  | negInt (value : Int64)
  | float (bits : UInt64)
  deriving DecidableEq

/-- A parsed value. The fields of an object have different names. -/
inductive Json
  | null
  | bool (value : Bool)
  | number (value : JsonNumber)
  | string (value : String)
  | array (values : List Json)
  | object (fields : List (String × Json))

/-- The fields of an object. -/
abbrev JsonObject := List (String × Json)

/-- The number as an unsigned integer. -/
def JsonNumber.asU64 : JsonNumber → Option ℕ
  | posInt value => some value.toNat
  | _ => none

/-- The number as a signed integer. -/
def JsonNumber.asI64 : JsonNumber → Option ℤ
  | posInt value => if (value.toNat : ℤ) ≤ i64Max then some value.toNat else none
  | negInt value => some value.toInt
  | float _ => none

/-- What decoding takes from outside. -/
structure Decoding where
  /-- The parser of JSON. -/
  fromSlice : List UInt8 → Option Json
  /-- A progress in basis points, unless it is out of range. -/
  quantizeProgress : JsonNumber → Option ℕ

def requiredString (object : JsonObject) (key : String) : Except RejectReason String :=
  match object.lookup key with
  | some (.string value) => .ok value
  | _ => .error .invalid

def optionalValidString (object : JsonObject) (key : String) : Option String :=
  match object.lookup key with
  | some (.string value) => some value
  | _ => none

def optionalString (object : JsonObject) (key : String) : Except RejectReason (Option String) :=
  match object.lookup key with
  | none | some .null => .ok none
  | some (.string value) => .ok (some value)
  | some _ => .error .invalid

def requiredU64 (object : JsonObject) (key : String) : Except RejectReason ℕ :=
  match object.lookup key with
  | some (.number value) => value.asU64.elim (.error .invalid) .ok
  | _ => .error .invalid

def requiredI64 (object : JsonObject) (key : String) : Except RejectReason ℤ :=
  match object.lookup key with
  | some (.number value) => value.asI64.elim (.error .invalid) .ok
  | _ => .error .invalid

def optionalProgress (d : Decoding) (object : JsonObject) : Except RejectReason (Option ℕ) :=
  match object.lookup "progress" with
  | none | some .null => .ok none
  | some (.number value) =>
    (d.quantizeProgress value).elim (.error .invalid) fun progress => .ok (some progress)
  | some _ => .error .invalid

def optionalProvider (object : JsonObject) : Except RejectReason (Option Provider) :=
  match object.lookup "provider" with
  | none | some .null => .ok none
  | some (.string value) =>
    if value = "claude" then .ok (some .claude)
    else if value = "codex" then .ok (some .codex)
    else .error .invalid
  | some _ => .error .invalid

/-- The kinds of events without a second run. -/
def plainKind (eventType : String) : Except RejectReason ControllerEventKind :=
  if eventType = "task_started" then .ok .taskStarted
  else if eventType = "blocked" then .ok .blocked
  else if eventType = "progress" then .ok .progress
  else if eventType = "complete" then .ok .complete
  else if eventType = "failed" then .ok .failed
  else if eventType = "cancelled" then .ok .cancelled
  else if eventType = "session_ended" then .ok .sessionEnded
  else if eventType = "dismiss" then .ok .dismiss
  else .error .invalid

/-- The kind of an event; a second run is named exactly where the kind has one. -/
def decodeKind (eventType : String) (parentTaskRunId dependsOnId : Option String) :
    Except RejectReason ControllerEventKind :=
  if eventType = "dispatch" ∧ dependsOnId = none then
    parentTaskRunId.elim (.error .invalid) fun parent => .ok (.dispatch parent)
  else if eventType = "depends_on" ∧ parentTaskRunId = none then
    dependsOnId.elim (.error .invalid) fun prerequisite => .ok (.dependsOn prerequisite)
  else if parentTaskRunId = none ∧ dependsOnId = none then plainKind eventType
  else .error .invalid

/-- The event of a request. -/
def decodeObject (d : Decoding) (object : JsonObject) (receiptTimeMs : ℤ) (session : String) :
    Except RejectReason ControllerEvent := do
  let schemaVersion ← requiredU64 object "schema_version"
  if 1 < schemaVersion then throw .unsupportedVersion
  if schemaVersion = 0 then throw .invalid
  let eventId ← requiredString object "event_id"
  let emittedAtMs ← requiredI64 object "emitted_at_ms"
  let source ← requiredString object "source"
  let eventType ← requiredString object "event_type"
  let taskRunId ← requiredString object "task_run_id"
  let parentTaskRunId ← optionalString object "parent_task_run_id"
  let dependsOnId ← optionalString object "depends_on_id"
  let label ← optionalString object "label"
  let reason ← optionalString object "reason"
  let progress ← optionalProgress d object
  let provider ← optionalProvider object
  let nativeSessionId ← optionalString object "native_session_id"
  let terminalId ← optionalString object "terminal_id"
  if nativeSessionId.isSome ∧ provider = none then throw .invalid
  let event ← decodeKind eventType parentTaskRunId dependsOnId
  return {
    schemaVersion
    taskRunId
    event
    metadata := {
      eventId
      timestampMs := emittedAtMs
      receiptTimeMs
      source
      sourceEventType := eventType
      herdrSession := session
      terminalId
      provider
      nativeSessionId
      label
      reason
      progress } }

/-- A frame whose name is known even if the rest is refused. -/
structure DecodedEnvelope where
  eventId : Option String
  object : Except RejectReason JsonObject

def decodeEnvelope (d : Decoding) (frame : List UInt8) : DecodedEnvelope :=
  match d.fromSlice frame with
  | some (.object object) => ⟨optionalValidString object "event_id", .ok object⟩
  | _ => ⟨none, .error .invalid⟩

def DecodedEnvelope.decodeEvent (decoded : DecodedEnvelope) (d : Decoding) (receiptTimeMs : ℤ)
    (session : String) : Except RejectReason ControllerEvent := do
  decodeObject d (← decoded.object) receiptTimeMs session

/-! ### Service -/

/-- A frame and when it was received. -/
structure ControllerRequest where
  frame : List UInt8
  receiptTimeMs : ℤ

/-- Why a request should be sent again. -/
inductive RetryableReason
  | persistenceUnavailable
  deriving DecidableEq

/-- The answer to a request. -/
inductive ControllerResponse
  | accepted
  | duplicate
  | rejected (reason : RejectReason)
  | retryable (reason : RetryableReason)
  deriving DecidableEq

/-- What decides how a request fares besides the reducer and the mirror. -/
structure Circumstances where
  /-- The identities that validation draws. -/
  fresh : FreshRunIds
  /-- The writer is healthy and its queue has room. -/
  permitted : Bool
  /-- The time of publication. -/
  nowMs : ℤ
  /-- How the batch fares. -/
  fate : WriterFate

namespace Reducer

/-- A run with the state that goes with it. -/
def persistTaskRunV6 (r : Reducer) (runId : RunId) : Option PersistTaskRunV6 := do
  let run ← r.model.taskRun runId
  let state ← r.model.v6State runId
  let observedAtMs := (state.lifecycleWatermark.map (·.observedAtMs)).getD 0
  return ⟨persistedRun run (nativeBinding r.model runId) observedAtMs, state⟩

/-- The run whose row an operation writes. -/
def writtenRun : PersistOp → Option RunId
  | .upsertTaskRun value => some value.taskRun.runId
  | .promoteTaskRunKey promoted _ _ => some promoted.taskRun.runId
  | _ => none

/-- The operations with the states of the runs they write. -/
def decorateV6Batch (r : Reducer) (operations : PersistBatch) : PersistV6Batch where
  operations
  taskRuns := (HashSet.ofList (operations.filterMap writtenRun)).keys.filterMap r.persistTaskRunV6

end Reducer

/-- The reducer and the writer that requests are served with. -/
structure ControllerService where
  reducer : Reducer
  writer : Writer

/-- What a request leaves. -/
structure Serviced where
  service : ControllerService
  response : ControllerResponse
  /-- The rows that the client learnt are deleted. -/
  forgotten : List LedgerEntry := []

namespace ControllerService

/-- Serves one request. -/
def serviceRequest (s : ControllerService) (d : Decoding) (session : String) (request : ControllerRequest)
    (c : Circumstances) : Serviced :=
  let decoded := decodeEnvelope d request.frame
  if decoded.eventId.any s.writer.isDuplicate then { service := s, response := .duplicate }
  else match decoded.decodeEvent d request.receiptTimeMs session with
  | .error reason => { service := s, response := .rejected reason }
  | .ok event =>
    match s.reducer.toCore.validateControllerEvent event c.fresh with
    | .error reason => { service := s, response := .rejected reason }
    | .ok delta =>
      if c.permitted then
        match s.reducer.commitStaged delta c.nowMs with
        | (reducer, .error .ingestSequenceExhausted) =>
          { service := { s with reducer }, response := .retryable .persistenceUnavailable }
        | (reducer, .ok operations) =>
          let (writer, forgotten) := s.writer.write (.applyV6 (reducer.decorateV6Batch operations)) c.fate
          { service := ⟨reducer, writer⟩, response := .accepted, forgotten }
      else { service := s, response := .retryable .persistenceUnavailable }

end ControllerService

/-! ### Names -/

theorem requiredString_ok {object : JsonObject} {key value : String}
    (h : requiredString object key = .ok value) : optionalValidString object key = some value := by
  unfold requiredString at h
  split at h
  · rename_i hlookup
    cases h
    rw [optionalValidString, hlookup]
  · cases h

theorem decodeObject_eventId {d : Decoding} {object : JsonObject} {receiptTimeMs : ℤ} {session : String}
    {event : ControllerEvent} (h : decodeObject d object receiptTimeMs session = .ok event) :
    optionalValidString object "event_id" = some event.metadata.eventId := by
  obtain ⟨schemaVersion, -, h⟩ := bind_eq_ok.mp h
  split_ifs at h
  all_goals try cases h
  obtain ⟨eventId, heventId, h⟩ := bind_eq_ok.mp h
  obtain ⟨_, -, h⟩ := bind_eq_ok.mp h
  obtain ⟨_, -, h⟩ := bind_eq_ok.mp h
  obtain ⟨_, -, h⟩ := bind_eq_ok.mp h
  obtain ⟨_, -, h⟩ := bind_eq_ok.mp h
  obtain ⟨_, -, h⟩ := bind_eq_ok.mp h
  obtain ⟨_, -, h⟩ := bind_eq_ok.mp h
  obtain ⟨_, -, h⟩ := bind_eq_ok.mp h
  obtain ⟨_, -, h⟩ := bind_eq_ok.mp h
  obtain ⟨_, -, h⟩ := bind_eq_ok.mp h
  obtain ⟨_, -, h⟩ := bind_eq_ok.mp h
  obtain ⟨_, -, h⟩ := bind_eq_ok.mp h
  obtain ⟨_, -, h⟩ := bind_eq_ok.mp h
  split_ifs at h
  · cases h
  · obtain ⟨_, -, h⟩ := bind_eq_ok.mp h
    cases h
    exact requiredString_ok heventId

/-- The name that is looked up is the name of the event. -/
theorem decodeEvent_eventId {d : Decoding} {frame : List UInt8} {receiptTimeMs : ℤ} {session : String}
    {event : ControllerEvent}
    (h : (decodeEnvelope d frame).decodeEvent d receiptTimeMs session = .ok event) :
    (decodeEnvelope d frame).eventId = some event.metadata.eventId := by
  unfold decodeEnvelope at h ⊢
  split at h
  · exact decodeObject_eventId h
  · cases h

theorem normalizedEventId_eq (event : NormalizedEvent) : normalizedEventId event = event.metadata.eventId := by
  cases event <;> rfl

theorem normalizedEventId_mapMetadata {event : NormalizedEvent} {f : EventMetadata → EventMetadata}
    (hf : (f event.metadata).eventId = event.metadata.eventId) :
    normalizedEventId (event.mapMetadata f) = normalizedEventId event := by
  rw [normalizedEventId_eq, normalizedEventId_eq, metadata_mapMetadata, hf]

/-- Stamping leaves names and times. -/
theorem ledgerEntries_stampIngestSeq (batch : PersistBatch) (ingestSeq : ℤ) :
    ledgerEntries (stampIngestSeq batch ingestSeq) = ledgerEntries batch := by
  unfold ledgerEntries stampIngestSeq
  rw [List.filterMap_map]
  refine List.filterMap_congr fun op _ => ?_
  cases op with
  | recordEvent event seenAtMs =>
    exact congrArg (fun eventId => some (eventId, seenAtMs)) (normalizedEventId_mapMetadata rfl)
  | _ => rfl

/-- Redirecting events to survivors leaves names and times. -/
theorem ledgerEntries_normalizeLineage (batch : PersistBatch) (mergedInto : HashMap RunId RunId) :
    ledgerEntries (normalizeLineage batch mergedInto) = ledgerEntries batch := by
  induction batch generalizing mergedInto with
  | nil => rfl
  | cons op batch ih =>
    have hcons : ∀ (op : PersistOp) (batch : PersistBatch),
        ledgerEntries (op :: batch) = ledgerEntries [op] ++ ledgerEntries batch := fun op batch =>
      List.filterMap_append (l := [op])
    have htail : ∀ mergedInto, ledgerEntries (op :: normalizeLineage batch mergedInto) =
        ledgerEntries (op :: batch) := fun mergedInto => by
      rw [hcons, hcons op batch, ih]
    cases op with
    | recordEvent event seenAtMs =>
      show ledgerEntries (.recordEvent _ seenAtMs :: normalizeLineage batch mergedInto) = _
      rw [hcons, hcons (.recordEvent event seenAtMs), ih]
      apply congrArg (· ++ ledgerEntries batch)
      exact congrArg (fun eventId => [(eventId, seenAtMs)]) (normalizedEventId_mapMetadata rfl)
    | _ => exact htail _

/-! ### What a validated event records -/

/-- The terminal of a run that the lane does not know is counted and dropped. -/
def DroppedTerminal (core : Core) (event : ControllerEvent) : Prop :=
  resolveControllerRun core.model event.taskRunId = none ∧ event.metadata.source = sourceLogLane ∧
    event.event.isTerminal = true

theorem relateMetadata_ok {m : DomainModel} {event : ControllerEvent} {metadata related : EventMetadata}
    {subject fresh : RunId} (h : relateMetadata m event metadata subject fresh = .ok related) :
    related.eventId = metadata.eventId ∧ related.source = metadata.source := by
  unfold relateMetadata at h
  split at h
  · split_ifs at h
    cases h
    exact ⟨rfl, rfl⟩
  · split_ifs at h
    cases h
    exact ⟨rfl, rfl⟩
  · cases h
    exact ⟨rfl, rfl⟩

/-- A transition is staged with its event as the last operation. -/
theorem stageTransition_records {tx : Tx} {event : ControllerEvent} {metadata : EventMetadata} {subject : RunId}
    {subjectWasUnknown : Bool} {aliasRunId : RunId} {staged : Tx × ControllerDiagnosticDeltas}
    (h : tx.stageTransition event metadata subject subjectWasUnknown aliasRunId = .ok staged) :
    ∃ operations, staged.1.persist =
      operations ++ [.recordEvent (.controllerEvent metadata event.event) metadata.receiptTimeMs] := by
  obtain ⟨_, -, h⟩ := bind_eq_ok.mp h
  obtain ⟨_, -, h⟩ := bind_eq_ok.mp h
  obtain ⟨_, -, h⟩ := bind_eq_ok.mp h
  obtain ⟨_, -, h⟩ := bind_eq_ok.mp h
  obtain ⟨_, -, h⟩ := bind_eq_ok.mp h
  cases h
  exact ⟨_, rfl⟩

/-- A validated event records its name, unless it is a dropped terminal. -/
theorem validateControllerEvent_records {core : Core} {event : ControllerEvent} {fresh : FreshRunIds}
    {delta : MaterializedDelta} (h : core.validateControllerEvent event fresh = .ok delta) :
    DroppedTerminal core event ∨
      event.metadata.eventId ∈ (ledgerEntries delta.batch).map Prod.fst := by
  unfold Core.validateControllerEvent at h
  split at h
  · cases h
  split at h
  · cases h
  dsimp only at h
  split at h
  · cases h
  · rename_i metadata hrelated
    obtain ⟨hid, hsource⟩ := relateMetadata_ok hrelated
    have hlast : ∀ (operations : PersistBatch) (recorded : EventMetadata) (kind : ControllerEventKind)
        (t : ℤ), recorded.eventId = event.metadata.eventId → event.metadata.eventId ∈
          (ledgerEntries (operations ++ [.recordEvent (.controllerEvent recorded kind) t])).map Prod.fst := by
      intro operations recorded kind t hrecorded
      refine List.mem_map.mpr ⟨(recorded.eventId, t), ?_, hrecorded⟩
      exact List.mem_filterMap.mpr ⟨_, List.mem_append_right _ (List.mem_singleton.mpr rfl), rfl⟩
    split_ifs at h with hended hdropped hdismiss hunknown
    · cases h
      exact .inr (hlast _ _ _ _ hid)
    · exact .inl ⟨Option.isNone_iff_eq_none.mp hdropped.1, hsource.symm.trans hdropped.2.1, hdropped.2.2⟩
    · cases h
      exact .inr (hlast _ _ _ _ hid)
    · cases h
      exact .inr (hlast _ _ _ _ hid)
    · obtain ⟨staged, hstaged, rfl⟩ := map_eq_ok.mp h
      obtain ⟨operations, hoperations⟩ := stageTransition_records hstaged
      refine .inr ?_
      show _ ∈ (ledgerEntries staged.1.persist).map Prod.fst
      rw [hoperations]
      exact hlast _ _ _ _ hid

/-- A committed event records what was validated. -/
theorem commitStaged_ledger {r : Reducer} {delta : MaterializedDelta} {nowMs : ℤ} {operations : PersistBatch}
    (h : (r.commitStaged delta nowMs).2 = .ok operations) :
    ledgerEntries operations = ledgerEntries delta.batch := by
  unfold Reducer.commitStaged at h
  split at h
  · cases h
  · cases h
    refine (ledgerEntries_normalizeLineage _ _).trans ?_
    exact ledgerEntries_stampIngestSeq delta.batch _

/-- A commit fails only when the sequences are used up. -/
theorem commitStaged_error {r : Reducer} {delta : MaterializedDelta} {nowMs : ℤ} {error : CommitStagedError}
    (h : (r.commitStaged delta nowMs).2 = .error error) : r.nextIngestSeq.filter (0 < ·) = none := by
  unfold Reducer.commitStaged at h
  split at h
  · assumption
  · cases h

namespace ControllerService

variable {s s' : ControllerService} {d : Decoding} {session : String}

/-! ### Answers -/

/-- The name of the event of a request. -/
def requestName (d : Decoding) (request : ControllerRequest) : Option String :=
  (decodeEnvelope d request.frame).eventId

/-- The reducer took over the validated event of a request. -/
def Committed (s : ControllerService) (d : Decoding) (session : String) (request : ControllerRequest)
    (c : Circumstances) (reducer : Reducer) : Prop :=
  ∃ event delta operations,
    (decodeEnvelope d request.frame).decodeEvent d request.receiptTimeMs session = .ok event ∧
    s.reducer.toCore.validateControllerEvent event c.fresh = .ok delta ∧
    s.reducer.commitStaged delta c.nowMs = (reducer, .ok operations)

/-- The event of a request is a terminal that is counted and dropped. -/
def DropsTerminal (s : ControllerService) (d : Decoding) (session : String) (request : ControllerRequest) :
    Prop :=
  ∃ event, (decodeEnvelope d request.frame).decodeEvent d request.receiptTimeMs session = .ok event ∧
    DroppedTerminal s.reducer.toCore event

/-- The exhaustion of the sequences, and nothing else but the samples and rates that a publication brings
up to date. -/
structure Exhausted (r r' : Reducer) : Prop where
  noSequence : r.nextIngestSeq.filter (0 < ·) = none
  published : ∃ nowMs, r' = (r.setModel (r.model.updateDiagnostics
    (·.recordIngestSequenceExhaustion))).publish nowMs
  nextIngestSeq : r'.nextIngestSeq = r.nextIngestSeq
  unmeasured : r'.toCore.unmeasured = r.toCore.unmeasured

/-- What a request comes to. -/
inductive Outcome (s : ControllerService) (d : Decoding) (session : String) (request : ControllerRequest)
    (c : Circumstances) : Serviced → Prop
  /-- The name is taken. -/
  | duplicate {name : String} : requestName d request = some name → s.writer.isDuplicate name = true →
    Outcome s d session request c { service := s, response := .duplicate }
  /-- Decoding or validation refused. -/
  | rejected {reason : RejectReason} : (requestName d request).any s.writer.isDuplicate = false →
    Outcome s d session request c { service := s, response := .rejected reason }
  /-- The writer takes no batch. -/
  | unavailable : (requestName d request).any s.writer.isDuplicate = false →
    Outcome s d session request c { service := s, response := .retryable .persistenceUnavailable }
  /-- The sequences are used up. -/
  | exhausted {reducer : Reducer} : (requestName d request).any s.writer.isDuplicate = false →
    Exhausted s.reducer reducer →
    Outcome s d session request c
      { service := { s with reducer }, response := .retryable .persistenceUnavailable }
  /-- The event was committed. -/
  | accepted {reducer : Reducer} {name : String} {operations : PersistBatch} {n : ℤ} :
    requestName d request = some name → s.writer.isDuplicate name = false →
    Committed s d session request c reducer → s.reducer.nextIngestSeq = some n →
    reducer.nextIngestSeq = Reducer.followingSeq n →
    DropsTerminal s d session request ∨ name ∈ (ledgerEntries operations).map Prod.fst →
    Outcome s d session request c {
      service := ⟨reducer, (s.writer.write (.applyV6 (reducer.decorateV6Batch operations)) c.fate).1⟩
      response := .accepted
      forgotten := (s.writer.write (.applyV6 (reducer.decorateV6Batch operations)) c.fate).2 }

theorem serviceRequest_outcome (s : ControllerService) (d : Decoding) (session : String)
    (request : ControllerRequest) (c : Circumstances) :
    Outcome s d session request c (s.serviceRequest d session request c) := by
  unfold serviceRequest
  dsimp only
  split
  · rename_i hknown
    obtain ⟨name, hname, htaken⟩ := (Option.any_eq_true _ _).mp hknown
    exact .duplicate hname htaken
  · rename_i hfree
    have hfree : (requestName d request).any s.writer.isDuplicate = false := Bool.eq_false_iff.mpr hfree
    split
    · exact .rejected hfree
    · rename_i event hevent
      split
      · exact .rejected hfree
      · rename_i delta hdelta
        split_ifs
        · have hname := decodeEvent_eventId hevent
          have hnew : s.writer.isDuplicate event.metadata.eventId = false := by
            rw [requestName, hname] at hfree
            exact hfree
          rcases s.reducer.commitStaged_cases delta c.nowMs with
            ⟨n, batch, hbatch, hn, -, -, hnext⟩ | ⟨-, heq⟩
          · cases hc : s.reducer.commitStaged delta c.nowMs with
            | mk reducer result =>
              rw [hc] at hbatch hnext
              obtain rfl : result = .ok batch := hbatch
              refine .accepted hname hnew ⟨event, delta, batch, hevent, hdelta, hc⟩ hn hnext ?_
              rcases validateControllerEvent_records hdelta with hdropped | hrecorded
              · exact .inl ⟨event, hevent, hdropped⟩
              · rw [commitStaged_ledger (congrArg Prod.snd hc)]
                exact .inr hrecorded
          · rw [heq]
            exact .exhausted hfree ⟨commitStaged_error (congrArg Prod.snd heq), ⟨_, rfl⟩,
              Reducer.nextIngestSeq_publish _ _, (Reducer.unmeasured_publish _ _).trans rfl⟩
        · exact .unavailable hfree

/-! ### Runs -/

/-- A turn of the task that owns the reducer and the writer, with the rows that it learns are deleted. -/
inductive ServiceStep (d : Decoding) (session : String) :
    ControllerService → List LedgerEntry → ControllerService → Prop
  /-- A request is served. -/
  | request (s : ControllerService) (request : ControllerRequest) (c : Circumstances) :
    ServiceStep d session s (s.serviceRequest d session request c).forgotten
      (s.serviceRequest d session request c).service
  /-- The reducer does other work. -/
  | work {s : ControllerService} {action : Action} {reducer : Reducer} {merges : List Merge} :
    s.reducer.perform action = some (reducer, merges) → ServiceStep d session s [] { s with reducer }
  /-- A batch of other work is written. -/
  | write (s : ControllerService) (command : WriterCommand) (fate : WriterFate) :
    ServiceStep d session s (s.writer.write command fate).2 { s with writer := (s.writer.write command fate).1 }
  /-- What is old is deleted. -/
  | cleanup (s : ControllerService) (nowMs : ℤ) (acknowledged : Bool) :
    ServiceStep d session s (s.writer.cleanup nowMs acknowledged).2
      { s with writer := (s.writer.cleanup nowMs acknowledged).1 }
  /-- A drain is completed. -/
  | finalize (s : ControllerService) (manifest : PersistHistoryDrain) (observedAtMs : ℤ) :
    ServiceStep d session s [] { s with writer := s.writer.finalizeHistoryDrain manifest observedAtMs }

theorem Outcome.mirrors {request : ControllerRequest} {c : Circumstances} {serviced : Serviced}
    (h : Outcome s d session request c serviced) (hs : s.writer.Mirrors) :
    serviced.service.writer.Mirrors := by
  cases h with
  | accepted => exact Writer.write_mirrors hs _ _
  | _ => exact hs

theorem Outcome.keeps {request : ControllerRequest} {c : Circumstances} {serviced : Serviced} {name : String}
    (h : Outcome s d session request c serviced) (hs : s.writer.isDuplicate name = true) :
    (∃ entry ∈ serviced.forgotten, entry.1 = name) ∨ serviced.service.writer.isDuplicate name = true := by
  cases h with
  | accepted => exact Writer.write_keeps _ (.inl hs)
  | _ => exact .inr hs

theorem Outcome.forgets {request : ControllerRequest} {c : Circumstances} {serviced : Serviced}
    (h : Outcome s d session request c serviced) {entry : LedgerEntry} (hentry : entry ∈ serviced.forgotten) :
    serviced.service.writer.db.eventLedger.contains entry.1 = false := by
  cases h with
  | accepted => exact Writer.write_forgets hentry
  | _ => cases hentry

variable {forgotten : List LedgerEntry}

theorem ServiceStep.mirrors (h : ServiceStep d session s forgotten s') (hs : s.writer.Mirrors) :
    s'.writer.Mirrors := by
  cases h with
  | request request c => exact (serviceRequest_outcome s d session request c).mirrors hs
  | work => exact hs
  | write command fate => exact Writer.write_mirrors hs command fate
  | cleanup nowMs acknowledged => exact Writer.cleanup_mirrors hs nowMs acknowledged
  | finalize manifest observedAtMs => exact Writer.finalizeHistoryDrain_mirrors hs manifest observedAtMs

/-- A name that is taken stays taken until its row is deleted. -/
theorem ServiceStep.keeps {name : String} (h : ServiceStep d session s forgotten s')
    (hs : s.writer.isDuplicate name = true) :
    (∃ entry ∈ forgotten, entry.1 = name) ∨ s'.writer.isDuplicate name = true := by
  cases h with
  | request request c => exact (serviceRequest_outcome s d session request c).keeps hs
  | work => exact .inr hs
  | write command fate => exact Writer.write_keeps fate (.inl hs)
  | cleanup nowMs acknowledged => exact Writer.cleanup_keeps hs nowMs acknowledged
  | finalize manifest observedAtMs =>
    refine .inr ?_
    show (s.writer.finalizeHistoryDrain manifest observedAtMs).isDuplicate name = true
    unfold Writer.finalizeHistoryDrain
    split
    · exact hs
    · exact hs

theorem ServiceStep.forgets (h : ServiceStep d session s forgotten s') {entry : LedgerEntry}
    (hentry : entry ∈ forgotten) : s'.writer.db.eventLedger.contains entry.1 = false := by
  cases h with
  | request request c => exact (serviceRequest_outcome s d session request c).forgets hentry
  | work => cases hentry
  | write => exact Writer.write_forgets hentry
  | cleanup => exact Writer.cleanup_forgets hentry
  | finalize => cases hentry

/-! ### What the answers mean -/

theorem not_exhausted {n : ℤ} {r : Reducer} (h : r.nextIngestSeq = Reducer.followingSeq n) :
    r.nextIngestSeq ≠ some n := by
  rw [h, Reducer.followingSeq]
  split_ifs
  · simp
  · rw [ne_eq, Option.some.injEq]
    omega

/-- Taking over an event is seen in the reducer. -/
theorem Committed.changes {request : ControllerRequest} {c : Circumstances} {reducer : Reducer}
    (h : Committed s d session request c reducer) : reducer.nextIngestSeq ≠ s.reducer.nextIngestSeq := by
  obtain ⟨event, delta, operations, -, -, hcommit⟩ := h
  rcases s.reducer.commitStaged_cases delta c.nowMs with ⟨n, batch, -, hn, -, -, hnext⟩ | ⟨-, heq⟩
  · rw [hcommit] at hnext
    rw [hn]
    exact not_exhausted hnext
  · rw [hcommit] at heq
    cases heq

theorem response_duplicate {request : ControllerRequest} {c : Circumstances} {serviced : Serviced}
    (h : Outcome s d session request c serviced) (hs : s.writer.Mirrors) :
    serviced.response = .duplicate ↔ ∃ name, requestName d request = some name ∧
      (s.writer.isDuplicate name = true ∨ s.writer.db.eventLedger.contains name = true) := by
  have hfree : (requestName d request).any s.writer.isDuplicate = false →
      ¬ ∃ name, requestName d request = some name ∧
        (s.writer.isDuplicate name = true ∨ s.writer.db.eventLedger.contains name = true) := by
    rintro hfree ⟨name, hname, hknown⟩
    have htaken : s.writer.isDuplicate name = true := hknown.elim id (hs name)
    rw [hname, Option.any_some, htaken] at hfree
    cases hfree
  cases h with
  | duplicate hname htaken => exact iff_of_true rfl ⟨_, hname, .inl htaken⟩
  | rejected h => exact iff_of_false (by simp) (hfree h)
  | unavailable h => exact iff_of_false (by simp) (hfree h)
  | exhausted h => exact iff_of_false (by simp) (hfree h)
  | accepted hname hnew =>
    refine iff_of_false (by simp) (hfree ?_)
    rw [hname]
    exact hnew

theorem response_accepted {request : ControllerRequest} {c : Circumstances} {serviced : Serviced}
    (h : Outcome s d session request c serviced) :
    serviced.response = .accepted ↔ Committed s d session request c serviced.service.reducer := by
  cases h with
  | accepted _ _ hcommitted => exact iff_of_true rfl hcommitted
  | exhausted _ hexhausted =>
    exact iff_of_false (by simp) fun hcommitted => hcommitted.changes hexhausted.nextIngestSeq
  | duplicate => exact iff_of_false (by simp) fun hcommitted => hcommitted.changes rfl
  | rejected => exact iff_of_false (by simp) fun hcommitted => hcommitted.changes rfl
  | unavailable => exact iff_of_false (by simp) fun hcommitted => hcommitted.changes rfl

theorem Outcome.unchanged {request : ControllerRequest} {c : Circumstances} {serviced : Serviced}
    (h : Outcome s d session request c serviced) (hrefused : serviced.response ≠ .accepted) :
    serviced.service = s ∨
      (serviced.response = .retryable .persistenceUnavailable ∧ serviced.service.writer = s.writer ∧
        Exhausted s.reducer serviced.service.reducer) := by
  cases h with
  | accepted => exact absurd rfl hrefused
  | exhausted _ hexhausted => exact .inr ⟨rfl, rfl, hexhausted⟩
  | _ => exact .inl rfl

/-- An accepted request reserves its name, unless it is a dropped terminal. -/
theorem Outcome.reserves {request : ControllerRequest} {c : Circumstances} {serviced : Serviced} {name : String}
    (h : Outcome s d session request c serviced) (haccepted : serviced.response = .accepted)
    (hname : requestName d request = some name) :
    DropsTerminal s d session request ∨ (∃ entry ∈ serviced.forgotten, entry.1 = name) ∨
      serviced.service.writer.isDuplicate name = true := by
  cases h with
  | accepted hname' _ _ _ _ hrecords =>
    obtain rfl := Option.some.inj (hname'.symm.trans hname)
    rcases hrecords with hdropped | hrecorded
    · exact .inl hdropped
    · exact .inr (Writer.write_keeps _ (.inr hrecorded))
  | _ => cases haccepted

theorem Outcome.new {request : ControllerRequest} {c : Circumstances} {serviced : Serviced} {name : String}
    (h : Outcome s d session request c serviced) (haccepted : serviced.response = .accepted)
    (hname : requestName d request = some name) : s.writer.isDuplicate name = false := by
  cases h with
  | accepted hname' hnew =>
    obtain rfl := Option.some.inj (hname'.symm.trans hname)
    exact hnew
  | _ => cases haccepted

/-- In every run of the service: a request is a duplicate exactly if its name is reserved or durable, and
accepted exactly if the reducer took its event over; any other answer leaves reducer and writer as they
were, except that the exhaustion of the sequences is counted and published. Two events of one name are
accepted only if the row of the name was deleted between them, or the first was a terminal that is
dropped and records nothing. -/
theorem requests_answered_truthfully (d : Decoding) (session : String) (r : Reducer) (db : Database)
    (forgotten : List LedgerEntry) (s : ControllerService)
    (h : Runs (ServiceStep d session) ⟨r, .start db⟩ forgotten s) :
    (∀ request c,
      ((s.serviceRequest d session request c).response = .duplicate ↔
        ∃ name, requestName d request = some name ∧
          (s.writer.isDuplicate name = true ∨ s.writer.db.eventLedger.contains name = true)) ∧
      ((s.serviceRequest d session request c).response = .accepted ↔
        Committed s d session request c (s.serviceRequest d session request c).service.reducer) ∧
      ((s.serviceRequest d session request c).response ≠ .accepted →
        (s.serviceRequest d session request c).service = s ∨
          ((s.serviceRequest d session request c).response = .retryable .persistenceUnavailable ∧
            (s.serviceRequest d session request c).service.writer = s.writer ∧
            Exhausted s.reducer (s.serviceRequest d session request c).service.reducer))) ∧
    (∀ name request c later s' request' c',
      requestName d request = some name → requestName d request' = some name →
      (s.serviceRequest d session request c).response = .accepted →
      Runs (ServiceStep d session) (s.serviceRequest d session request c).service later s' →
      (s'.serviceRequest d session request' c').response = .accepted →
      DropsTerminal s d session request ∨
        ∃ entry ∈ (s.serviceRequest d session request c).forgotten ++ later, entry.1 = name) ∧
    (∀ later s', ServiceStep d session s later s' → ∀ entry ∈ later,
      s'.writer.db.eventLedger.contains entry.1 = false) := by
  have hmirrors : s.writer.Mirrors :=
    h.invariant (I := fun s => s.writer.Mirrors) ServiceStep.mirrors (Writer.mirrors_start db)
  refine ⟨fun request c => ?_,
    fun name request c later s' request' c' hname hname' haccepted hlater haccepted' => ?_,
    fun later s' hstep entry hentry => hstep.forgets hentry⟩
  · have houtcome := serviceRequest_outcome s d session request c
    exact ⟨response_duplicate houtcome hmirrors, response_accepted houtcome, houtcome.unchanged⟩
  · have hnew := (serviceRequest_outcome s' d session request' c').new haccepted' hname'
    rcases (serviceRequest_outcome s d session request c).reserves haccepted hname with
      hdropped | ⟨entry, hentry, heq⟩ | hreserved
    · exact .inl hdropped
    · exact .inr ⟨entry, List.mem_append_left _ hentry, heq⟩
    · rcases hlater.invariant_unless (I := fun s => s.writer.isDuplicate name = true)
        (F := fun entry : LedgerEntry => entry.1 = name) ServiceStep.keeps hreserved with
        ⟨entry, hentry, heq⟩ | htaken
      · exact .inr ⟨entry, List.mem_append_right _ hentry, heq⟩
      · rw [htaken] at hnew
        cases hnew

/-! ### One request sent twice -/

/-- A job is complete. -/
def completeFrame : List UInt8 :=
  ("\x7b\"schema_version\":1,\"event_id\":\"a\",\"emitted_at_ms\":1,\"source\":\"cli\"," ++
    "\"event_type\":\"complete\",\"task_run_id\":\"job\"\x7d").toUTF8.toList

/-- What is in the frame. -/
def completeObject : JsonObject :=
  [("schema_version", .number (.posInt 1)), ("event_id", .string "a"), ("emitted_at_ms", .number (.posInt 1)),
    ("source", .string "cli"), ("event_type", .string "complete"), ("task_run_id", .string "job")]

/-- A parser that knows this frame. -/
def completeDecoding : Decoding where
  fromSlice frame := if frame = completeFrame then some (.object completeObject) else none
  quantizeProgress _ := none

/-- The request, received at once. -/
def completeRequest : ControllerRequest := ⟨completeFrame, 1⟩

/-- Everything works. -/
def smooth : Circumstances := ⟨⟨⟨1⟩, ⟨2⟩, ⟨3⟩⟩, true, 1, ⟨true, some 1, true⟩⟩

/-- The service after the request. -/
def completed : Serviced :=
  serviceRequest ⟨Reducer.fresh 0, .start {}⟩ completeDecoding "s" completeRequest smooth

theorem requests_answered_truthfully_twice :
    (completed.service.serviceRequest completeDecoding "s" completeRequest smooth).response = .duplicate := by
  have hrun : Runs (ServiceStep completeDecoding "s") ⟨Reducer.fresh 0, .start {}⟩ completed.forgotten
      completed.service := .one (.request _ completeRequest smooth)
  have hname : requestName completeDecoding completeRequest = some "a" := by decide +kernel
  have hreserved : completed.service.writer.isDuplicate "a" = true := by decide +kernel
  exact ((requests_answered_truthfully _ _ _ _ _ _ hrun).1 completeRequest smooth).1.mpr
    ⟨"a", hname, .inl hreserved⟩

/-! ### A refusal that brings rates up to date -/

/-- A store whose sequences are used up. -/
def usedUp : Database := { ingestSeqHighWater := i64Max }

/-- The reducer that starts over it. -/
def usedUpReducer : Reducer := { Reducer.fresh 0 with nextIngestSeq := none }

/-- A pane in which an agent works. -/
def workingPane : TopologySnapshot where
  workspaces := [⟨"w"⟩]
  tabs := [⟨"t", "w", none⟩]
  panes := [{
    paneId := "p"
    workspaceId := "w"
    tabId := "t"
    terminalId := "x"
    agent := some ⟨"codex", .working⟩
    agentSession := some ⟨"hook", "codex", .id, "first"⟩ }]

/-- The pane is seen. -/
def paneSeen : Action := .snapshot workingPane (fun _ => ⟨⟨10⟩, ⟨11⟩⟩) 1 (fun _ => 1) 1 1

/-- A status event with another session than that of the run in the pane. -/
def otherSession : NormalizedEvent :=
  .agentStatusChanged
    { eventId := "b", timestampMs := 5, receiptTimeMs := 5, source := "herdr", provider := some .codex
      nativeSessionId := some "second" }
    "gap-execution-0000000000000000000000000B" .working

/-- The status is refused. -/
def statusRefused : Action := .paneObservation [(otherSession, ⟨20⟩)] ⟨"p", .idle⟩ 5

/-- The reducer after both. -/
def rateNoted : Reducer := ((usedUpReducer.next paneSeen).1.next statusRefused).1

/-- A request that finds no sequence left changes more than the diagnostics: the rate of a run is brought up
to date. -/
theorem retryable_brings_rates_up_to_date :
    usedUp.nextIngestSeq = .ok none ∧
    ∃ s, Runs (ServiceStep completeDecoding "s") ⟨usedUpReducer, .start usedUp⟩ [] s ∧
      (s.serviceRequest completeDecoding "s" completeRequest { smooth with nowMs := 9 }).response =
        .retryable .persistenceUnavailable ∧
      (s.serviceRequest completeDecoding "s" completeRequest { smooth with nowMs := 9 }
        ).service.reducer.model.rateCursors ≠ s.reducer.model.rateCursors := by
  refine ⟨by decide, ⟨rateNoted, .start usedUp⟩, ?_, by decide +kernel, by decide +kernel⟩
  have hseen : usedUpReducer.perform paneSeen =
      some ((usedUpReducer.next paneSeen).1, (usedUpReducer.next paneSeen).2) := rfl
  have hrefused : (usedUpReducer.next paneSeen).1.perform statusRefused =
      some (rateNoted, ((usedUpReducer.next paneSeen).1.next statusRefused).2) := rfl
  exact (Runs.one (ServiceStep.work hseen)).tail (ServiceStep.work hrefused)

end ControllerService

end HerdrTop
