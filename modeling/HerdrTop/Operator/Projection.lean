import HerdrTop.Library.Shortlist
import HerdrTop.Reducer.Transitions
import HerdrTop.Reducer.State
import HerdrTop.Store.Restore

/-!
# The operator's projection

What the operator sees is folded from the batches of the reducer: the latest activity, and when runs
ended. There are two copies. The private one takes every batch; the published one takes only live ones,
and catches up when a history drain is complete.

A snapshot that equals the last one is not sent again; here it is sent again, which shows the same.
-/

namespace HerdrTop

/-! ### Activity -/

/-- How many activity items are kept. -/
def activityLimit : ℕ := 10000

/-- What orders activity; the highest is shown first. -/
def ActivityItem.rank (item : ActivityItem) : ℤ ×ₗ ℤ ×ₗ WithBot ℕ ×ₗ String :=
  toLex (item.eventTimestampMs, toLex (item.seenAtMs, toLex (item.ingestSeq, item.eventId)))

/-- Latest first, one item for each name, and not too many. -/
def normalizeActivity (activity : List ActivityItem) : List ActivityItem :=
  Shortlist.shortlist ActivityItem.rank ActivityItem.eventId activityLimit activity

/-- An event as the operator sees it; texts of Controller events are cleaned. -/
def projectMetadata (metadata : EventMetadata) (normalizedKind : String) (seenAtMs : ℤ)
    (controllerText : Bool) : Option ActivityItem :=
  if metadata.eventId = "" ∨ metadata.source = "" ∨ metadata.sourceEventType = "" then none
  else
    let provider := metadata.providerMetadata
    some {
      eventId := metadata.eventId
      eventTimestampMs := metadata.timestampMs
      seenAtMs
      ingestSeq := metadata.ingestSeq
      source := metadata.source
      normalizedKind
      sourceEventType := metadata.sourceEventType
      workspaceId := metadata.workspaceId
      tabId := metadata.tabId
      paneId := metadata.paneId
      terminalId := metadata.terminalId
      provider := metadata.provider
      nativeSessionId := metadata.nativeSessionId
      taskRunId := metadata.taskRunId
      agentNodeId := metadata.agentNodeId
      taskState := metadata.taskState
      modelId := provider.bind (·.modelId)
      providerEventKind := provider.bind (·.eventKind)
      toolName := provider.bind (·.toolName)
      itemCount := provider.bind (·.itemCount)
      byteCount := provider.bind (·.byteCount)
      providerAgentId := provider.bind (·.agentId)
      providerParentAgentId := provider.bind (·.parentAgentId)
      controllerLabel := if controllerText then metadata.label.map sanitizeControllerText else none
      controllerReason := if controllerText then metadata.reason.map sanitizeControllerText else none
      durability := .durable }

/-- Whether an event comes from a Controller. -/
def NormalizedEvent.isController : NormalizedEvent → Bool
  | controllerEvent _ _ => true
  | _ => false

def projectEvent (event : NormalizedEvent) (seenAtMs : ℤ) : Option ActivityItem :=
  projectMetadata (Database.eventMetadata event).1 (Database.eventMetadata event).2 seenAtMs event.isController

/-! ### Ends of runs -/

/-- The first end of a run stands until the run goes on; whether it changed. -/
def applyTerminalTime (terminalTimes : HashMap RunId ℤ) (persisted : PersistTaskRun) : HashMap RunId ℤ × Bool :=
  let runId := persisted.taskRun.runId
  if persisted.taskRun.state.isTerminal then
    if terminalTimes.contains runId then (terminalTimes, false)
    else (terminalTimes.insert runId (persisted.finishedAtMs.getD persisted.updatedAtMs), true)
  else (terminalTimes.remove runId, terminalTimes.contains runId)

/-- A survivor takes the earlier end; whether it changed. -/
def mergeTerminalTimes (terminalTimes : HashMap RunId ℤ) (survivor absorbed : RunId) : HashMap RunId ℤ × Bool :=
  let survivorTime := terminalTimes.get survivor
  let absorbedTime := (terminalTimes.remove survivor).get absorbed
  let mergedTime := match survivorTime, absorbedTime with
    | some left, some right => some (min left right)
    | some time, none | none, some time => some time
    | none, none => none
  let rest := (terminalTimes.remove survivor).remove absorbed
  (mergedTime.elim rest (rest.insert survivor), absorbedTime.isSome || survivorTime ≠ mergedTime)

/-! ### One batch -/

/-- A copy while a batch is folded into it. -/
structure Projected where
  activity : List ActivityItem
  terminalTimes : HashMap RunId ℤ
  /-- Something changed. -/
  changed : Bool := false
  /-- The names of the items that the batch touched. -/
  pending : List String := []

/-- Adds the item of an event, in place of one with its name. -/
def Projected.recordEvent (p : Projected) : PersistOp → Projected
  | .recordEvent event seenAtMs =>
    match projectEvent event seenAtMs with
    | none => p
    | some item =>
      { p with
        activity := p.activity.filter (·.eventId ≠ item.eventId) ++ [item]
        changed := true
        pending := item.eventId :: p.pending }
  | _ => p

/-- The item under the survivor of a merge. -/
def ActivityItem.reparent (item : ActivityItem) (survivor absorbed : RunId) : ActivityItem :=
  if item.taskRunId = some absorbed then { item with taskRunId := some survivor } else item

/-- Takes over the end of a run. -/
def Projected.applyTerminalTime (p : Projected) (persisted : PersistTaskRun) : Projected :=
  let (terminalTimes, changed) := HerdrTop.applyTerminalTime p.terminalTimes persisted
  { p with terminalTimes, changed := p.changed || changed }

/-- Follows merges and the ends of runs. -/
def Projected.followRuns (p : Projected) : PersistOp → Projected
  | .mergeTaskRuns survivor absorbed =>
    let moved := (p.activity.filter (·.taskRunId = some absorbed)).map (·.eventId)
    let (terminalTimes, changed) := mergeTerminalTimes p.terminalTimes survivor absorbed
    { activity := p.activity.map (·.reparent survivor absorbed)
      terminalTimes
      changed := p.changed || !moved.isEmpty || changed
      pending := moved ++ p.pending }
  | .upsertTaskRun run => p.applyTerminalTime run
  | .promoteTaskRunKey promoted _ _ => p.applyTerminalTime promoted
  | _ => p

/-- Folds a batch into a copy: all its events first, so that each takes part in all its merges. -/
def applySubmissionTo (activity : List ActivityItem) (terminalTimes : HashMap RunId ℤ) (batch : PersistBatch) :
    Projected :=
  batch.foldl Projected.followRuns (batch.foldl Projected.recordEvent { activity, terminalTimes })

/-- The items of a copy after a batch. -/
def Projected.settledActivity (p : Projected) : List ActivityItem :=
  if p.changed then normalizeActivity p.activity else p.activity

/-! ### Both copies -/

/-- What is sent to the operator. -/
structure OperatorSnapshot where
  activity : List ActivityItem
  terminalTimes : HashMap RunId ℤ
  deriving DecidableEq

/-- Both copies, and what decides which items are private. -/
structure OperatorProjection where
  activity : List ActivityItem
  terminalTimes : HashMap RunId ℤ
  pendingIdentities : List String := []
  deferredPendingIdentities : List String := []
  /-- The items that wait for a drain. -/
  deferredActivity : HashMap HistoryDrainId (List String) := ∅
  /-- The runs whose history is not complete. -/
  blockedHistoryRuns : List RunId := []
  publishedActivity : List ActivityItem
  publishedTerminalTimes : HashMap RunId ℤ
  publishedPendingIdentities : List String := []
  /-- The last snapshot that was sent. -/
  publisher : OperatorSnapshot

def activityDurability : RuntimeWriteOutcome → ActivityDurability
  | .durable | .committedButDegraded => .durable
  | .notCommitted | .skipped => .currentOnly
  | .durabilityUnknown => .durabilityUnknown

/-- An item with its durability, if it awaits it. -/
def ActivityItem.reclassify (pendingIdentities : List String) (durability : ActivityDurability)
    (item : ActivityItem) : ActivityItem :=
  if item.eventId ∈ pendingIdentities then { item with durability } else item

/-- Gives the items that await it their durability; whether one had another. -/
def reclassifyPending (activity : List ActivityItem) (pendingIdentities : List String)
    (durability : ActivityDurability) : List ActivityItem × Bool :=
  (activity.map (·.reclassify pendingIdentities durability),
    activity.any fun item => item.eventId ∈ pendingIdentities && item.durability ≠ durability)

namespace OperatorProjection

/-- Both copies start with what was restored. -/
def new (restored : RestoredOperatorState) : OperatorProjection :=
  let activity := normalizeActivity restored.activity
  { activity
    terminalTimes := restored.terminalTimes
    publishedActivity := activity
    publishedTerminalTimes := restored.terminalTimes
    publisher := ⟨activity, restored.terminalTimes⟩ }

/-- When the runs of a model ended. -/
def modelTerminalTimes (model : DomainModel) : HashMap RunId ℤ :=
  HashMap.ofList (model.taskRuns.values.filterMap fun run =>
    run.finishedAtMs.map fun finishedAtMs => (run.runId, finishedAtMs))

/-- Puts the items that wait for a drain into the private copy. -/
def restoreDrain (op : OperatorProjection) (deferred : HistoryDrainId × List ActivityItem) : OperatorProjection :=
  let identities := deferred.2.map (·.eventId)
  { op with
    activity := op.activity.filter (fun item => item.eventId ∉ identities) ++ deferred.2
    deferredActivity := op.deferredActivity.insert deferred.1 identities }

/-- Restores what is private after a restart. -/
def restoreDeferredHistory (op : OperatorProjection) (deferred : HashMap HistoryDrainId (List ActivityItem))
    (model : DomainModel) : OperatorProjection :=
  let blockedHistoryRuns := (model.taskRuns.values.map (·.runId)).filter fun runId =>
    (model.v6State runId).any fun state => !state.historyReady
  let op := deferred.toList.foldl restoreDrain
    { op with blockedHistoryRuns, terminalTimes := modelTerminalTimes model }
  { op with activity := normalizeActivity op.activity }

/-- Sends the published copy. -/
def publish (op : OperatorProjection) : OperatorProjection :=
  { op with publisher := ⟨op.publishedActivity, op.publishedTerminalTimes⟩ }

/-- Folds a live batch into both copies. -/
def applySubmission (op : OperatorProjection) (batch : PersistBatch) : OperatorProjection :=
  let next := applySubmissionTo op.activity op.terminalTimes batch
  let published := applySubmissionTo op.publishedActivity op.publishedTerminalTimes batch
  let op := { op with
    activity := next.settledActivity
    terminalTimes := next.terminalTimes
    pendingIdentities := next.pending
    publishedActivity := published.settledActivity
    publishedTerminalTimes := published.terminalTimes
    publishedPendingIdentities := published.pending }
  if published.changed then op.publish else op

/-- Folds a batch of a drain into the private copy. -/
def applySubmissionWithoutPublishing (op : OperatorProjection) (drainId : HistoryDrainId) (batch : PersistBatch) :
    OperatorProjection :=
  let next := applySubmissionTo op.activity op.terminalTimes batch
  let deferredActivity := op.deferredActivity.insert drainId
    ((op.deferredActivity.get drainId).getD [] ++ next.pending)
  let activity := next.settledActivity
  let retained := activity.map (·.eventId)
  { op with
    activity
    terminalTimes := next.terminalTimes
    deferredPendingIdentities := next.pending
    deferredActivity :=
      if next.changed then deferredActivity.mapValues fun _ identities => identities.filter (· ∈ retained)
      else deferredActivity }

/-- The store answered the last live batch. -/
def completeSubmission (op : OperatorProjection) (outcome : RuntimeWriteOutcome) : OperatorProjection :=
  let durability := activityDurability outcome
  let (publishedActivity, changed) :=
    reclassifyPending op.publishedActivity op.publishedPendingIdentities durability
  let op := { op with
    activity := (reclassifyPending op.activity op.pendingIdentities durability).1
    publishedActivity
    pendingIdentities := []
    publishedPendingIdentities := [] }
  if changed then op.publish else op

/-- The store answered the last batch of a drain. -/
def completeSubmissionWithoutPublishing (op : OperatorProjection) (outcome : RuntimeWriteOutcome) :
    OperatorProjection :=
  { op with
    activity := (reclassifyPending op.activity op.deferredPendingIdentities (activityDurability outcome)).1
    deferredPendingIdentities := if outcome.isCommitted then [] else op.deferredPendingIdentities }

/-- A run that was finalized is blocked exactly if its history is not complete. -/
def finalizeBlocked (blocked : List RunId) (finalized : FinalizedHistoryRun) : List RunId :=
  if finalized.state.historyReady then blocked.filter (· ≠ finalized.runId)
  else finalized.runId :: blocked

/-- Whether an item of a copy belongs to a blocked run. -/
def isBlocked (op : OperatorProjection) (item : ActivityItem) : Bool :=
  item.taskRunId.any (· ∈ op.blockedHistoryRuns)

/-- The names of the items that stay private: those that wait for a drain, and those of blocked runs. -/
def hiddenActivity (op : OperatorProjection) : List String :=
  op.deferredActivity.values.flatten ++ (op.activity.filter op.isBlocked).map (·.eventId)

/-- Lets the published copy catch up with what is not private. -/
def publishAccumulated (op : OperatorProjection) (completedDrains : List HistoryDrainId)
    (finalizedRuns : List FinalizedHistoryRun) (publishedModel : DomainModel) : OperatorProjection :=
  let op := { op with
    deferredActivity := completedDrains.foldl HashMap.remove op.deferredActivity
    blockedHistoryRuns := finalizedRuns.foldl finalizeBlocked op.blockedHistoryRuns }
  let hidden := op.hiddenActivity
  publish { op with
    publishedActivity := normalizeActivity
      (op.activity.filter (fun item => item.eventId ∉ hidden) ++
        op.publishedActivity.filter fun item => item.eventId ∈ hidden)
    publishedTerminalTimes := modelTerminalTimes publishedModel
    publishedPendingIdentities := [] }

end OperatorProjection

end HerdrTop
